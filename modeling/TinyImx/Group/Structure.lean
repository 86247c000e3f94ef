import TinyImx.Group.Changes
import TinyImx.Group.Locks

/-!
# The structure of a group

In every reachable state a group has one owner, never more active members than it may have, and one
open history row for every active membership.  Epochs and versions move by one, and only where a
membership is renewed or a command is committed.
-/

namespace TinyImx.Group

open TinyImx.Local (Bytes)

variable {r r' : Rows} {actor now : ℕ} {command : Command}

def Rows.Member (r : Rows) (u : ℕ) (m : MemberRow) : Prop := r.members.lookup u = some m

def Rows.Open (r : Rows) (u k : ℕ) : Prop :=
  ∃ h, r.history.lookup (u, k) = some h ∧ h.endedAt = none

structure Structured (r : Rows) : Prop where
  owner : ∃ m, r.Member r.group.ownerUserId m ∧ m.status = .active ∧ m.role = .owner ∧
    m.mutedUntil = none
  sole : ∀ u m, r.Member u m → m.role = .owner → u = r.group.ownerUserId
  capacity : r.activeCount ≤ r.group.maxMembers
  history : ∀ u k, r.Open u k ↔ ∃ m, r.Member u m ∧ m.status = .active ∧ m.membershipEpoch = k
  epochs : ∀ u m, r.Member u m → m.membershipEpoch < 2 ^ 64
  versions : r.group.version < 2 ^ 64 ∧ r.group.memberVersion < 2 ^ 64

theorem next_lt (n : ℕ) : next n < 2 ^ 64 := Nat.mod_lt _ (by decide)

theorem next_eq {n : ℕ} (hn : n < 2 ^ 64) (h : next n ≠ 0) : next n = n + 1 := by
  unfold next at h ⊢
  omega

/-! ## Rows that are replaced -/

variable {history : AList fun _ : ℕ × ℕ => HistoryRow}

section Lookups

variable {u v : ℕ} {m m' : MemberRow}
variable {members : AList fun _ : ℕ => MemberRow}

theorem member_insert_self {group : GroupRow} :
    (Rows.mk group (members.insert u m) history).Member u m' ↔ m' = m := by
  unfold Rows.Member
  rw [AList.lookup_insert, Option.some.injEq, eq_comm]

theorem member_insert_ne {group : GroupRow} (h : v ≠ u) :
    (Rows.mk group (members.insert u m) history).Member v m' ↔ members.lookup v = some m' := by
  unfold Rows.Member
  rw [AList.lookup_insert_ne h]

theorem Rows.Member.eq (h : r.Member u m) (h' : r.Member u m') : m = m' :=
  Option.some.inj (h.symm.trans h')

theorem activeCount_insert {group group' : GroupRow}
    {history' : AList fun _ : ℕ × ℕ => HistoryRow} :
    (Rows.mk group' (members.insert u m) history').activeCount + Kv.weightAt activeWeight members u =
      (Rows.mk group members history).activeCount + activeWeight u m :=
  Kv.tally_insert activeWeight members u m

theorem weightAt_member (h : r.Member u m) :
    Kv.weightAt activeWeight r.members u = activeWeight u m :=
  Kv.weightAt_of_lookup activeWeight h

end Lookups

namespace Structured

theorem group {group : GroupRow} (h : Structured r) (howner : group.ownerUserId = r.group.ownerUserId)
    (hmax : group.maxMembers = r.group.maxMembers)
    (hversions : group.version < 2 ^ 64 ∧ group.memberVersion < 2 ^ 64) :
    Structured { r with group := group } where
  owner := howner ▸ h.owner
  sole u m hm hrole := howner ▸ h.sole u m hm hrole
  capacity := hmax ▸ h.capacity
  history := h.history
  epochs := h.epochs
  versions := hversions

theorem touch_versions (now : ℕ) (group : GroupRow) :
    (group.touch now).version < 2 ^ 64 ∧ (group.touch now).memberVersion < 2 ^ 64 :=
  ⟨next_lt _, next_lt _⟩

theorem owner_of_member {u : ℕ} {m : MemberRow} (h : Structured r) (hm : r.Member u m)
    (hrole : m.role ≠ .owner) : u ≠ r.group.ownerUserId := by
  rintro rfl
  obtain ⟨m₀, hm₀, -, hrole₀, -⟩ := h.owner
  exact hrole (hm.eq hm₀ ▸ hrole₀)

theorem setMember {u : ℕ} {m m' : MemberRow} (h : Structured r) (hm : r.Member u m)
    (hrole : m.role ≠ .owner) (hrole' : m'.role ≠ .owner) (hstatus : m'.status = m.status)
    (hepoch : m'.membershipEpoch = m.membershipEpoch) : Structured (r.setMember now u m') := by
  have hne := h.owner_of_member hm hrole
  refine ⟨?_, fun v m₁ hm₁ hrole₁ => ?_, ?_, fun v k => ?_, fun v m₁ hm₁ => ?_, touch_versions now _⟩
  · obtain ⟨m₀, hm₀, hactive₀, hrole₀, hmute₀⟩ := h.owner
    exact ⟨m₀, (member_insert_ne (Ne.symm hne)).2 hm₀, hactive₀, hrole₀, hmute₀⟩
  · by_cases hv : v = u
    · subst hv
      rw [member_insert_self.1 hm₁] at hrole₁
      exact absurd hrole₁ hrole'
    · exact h.sole v m₁ ((member_insert_ne hv).1 hm₁) hrole₁
  · have hcount : (r.setMember now u m').activeCount = r.activeCount := by
      have hinsert : (r.setMember now u m').activeCount + Kv.weightAt activeWeight r.members u =
          r.activeCount + activeWeight u m' := activeCount_insert
      rw [weightAt_member hm] at hinsert
      have hweight : activeWeight u m' = activeWeight u m := by rw [activeWeight, hstatus]; rfl
      rw [hweight] at hinsert
      exact Nat.add_right_cancel hinsert
    rw [hcount]
    exact h.capacity
  · refine Iff.trans (h.history v k) ⟨?_, ?_⟩
    · rintro ⟨m₁, hm₁, hactive, rfl⟩
      by_cases hv : v = u
      · subst hv
        obtain rfl := hm.eq hm₁
        exact ⟨m', member_insert_self.2 rfl, hstatus.trans hactive, hepoch⟩
      · exact ⟨m₁, (member_insert_ne hv).2 hm₁, hactive, rfl⟩
    · rintro ⟨m₁, hm₁, hactive, rfl⟩
      by_cases hv : v = u
      · subst hv
        obtain rfl := member_insert_self.1 hm₁
        exact ⟨m, hm, hstatus ▸ hactive, hepoch.symm⟩
      · exact ⟨m₁, (member_insert_ne hv).1 hm₁, hactive, rfl⟩
  · by_cases hv : v = u
    · subst hv
      rw [member_insert_self.1 hm₁, hepoch]
      exact h.epochs v m hm
    · exact h.epochs v m₁ ((member_insert_ne hv).1 hm₁)

/-- A user that is not an active member is let in. -/
theorem enter {u : ℕ} (h : Structured r) (hinactive : ∀ m, r.Member u m → m.status ≠ .active)
    (hcount : r.activeCount < r.group.maxMembers) {epoch : ℕ} (hlt : epoch < 2 ^ 64) :
    Structured (r.enter now u epoch) := by
  have hne : r.group.ownerUserId ≠ u := by
    rintro rfl
    obtain ⟨m₀, hm₀, hactive₀, -⟩ := h.owner
    exact hinactive m₀ hm₀ hactive₀
  have hclosed : ∀ k, ¬ r.Open u k := by
    intro k hopen
    obtain ⟨m, hm, hactive, -⟩ := (h.history u k).1 hopen
    exact hinactive m hm hactive
  refine ⟨?_, fun v m₁ hm₁ hrole₁ => ?_, ?_, fun v k => ?_, fun v m₁ hm₁ => ?_, touch_versions now _⟩
  · obtain ⟨m₀, hm₀, hrest⟩ := h.owner
    exact ⟨m₀, (member_insert_ne hne).2 hm₀, hrest⟩
  · by_cases hv : v = u
    · subst hv
      rw [member_insert_self.1 hm₁] at hrole₁
      cases hrole₁
    · exact h.sole v m₁ ((member_insert_ne hv).1 hm₁) hrole₁
  · have hinsert : (r.enter now u epoch).activeCount + Kv.weightAt activeWeight r.members u =
        r.activeCount + activeWeight u (enteredRow now epoch) := activeCount_insert
    have hweight : activeWeight u (enteredRow now epoch) = 1 := rfl
    have hmax : (r.enter now u epoch).group.maxMembers = r.group.maxMembers := rfl
    omega
  · by_cases hv : v = u
    · subst hv
      constructor
      · rintro ⟨row, hrow, hopen⟩
        by_cases hk : k = epoch
        · exact ⟨_, member_insert_self.2 rfl, rfl, hk.symm⟩
        · have hkey : (v, k) ≠ (v, epoch) := fun heq => hk (Prod.mk.inj heq).2
          refine absurd ⟨row, ?_, hopen⟩ (hclosed k)
          rwa [Rows.enter, AList.lookup_insert_ne hkey] at hrow
      · rintro ⟨m₁, hm₁, -, rfl⟩
        rw [member_insert_self.1 hm₁]
        exact ⟨_, AList.lookup_insert _, rfl⟩
    · have hkey : ((v, k) : ℕ × ℕ) ≠ (u, epoch) := fun heq => hv (Prod.mk.inj heq).1
      have hopen : (r.enter now u epoch).Open v k ↔ r.Open v k := by
        simp only [Rows.Open, Rows.enter, AList.lookup_insert_ne hkey]
      rw [hopen, h.history v k]
      exact exists_congr fun m₁ => and_congr_left' (member_insert_ne hv).symm
  · by_cases hv : v = u
    · subst hv
      rw [member_insert_self.1 hm₁]
      exact hlt
    · exact h.epochs v m₁ ((member_insert_ne hv).1 hm₁)

/-- An active member that is not the owner is let out. -/
theorem exit {u reason endedBy : ℕ} {status : MemberStatus} {m : MemberRow} {row : HistoryRow}
    (h : Structured r) (hm : r.Member u m) (hrole : m.role ≠ .owner) (hstatus : status ≠ .active) :
    Structured (r.exit now u status reason endedBy m row) := by
  have hne := h.owner_of_member hm hrole
  refine ⟨?_, fun v m₁ hm₁ hrole₁ => ?_, ?_, fun v k => ?_, fun v m₁ hm₁ => ?_, touch_versions now _⟩
  · obtain ⟨m₀, hm₀, hrest⟩ := h.owner
    exact ⟨m₀, (member_insert_ne (Ne.symm hne)).2 hm₀, hrest⟩
  · by_cases hv : v = u
    · subst hv
      rw [member_insert_self.1 hm₁] at hrole₁
      exact absurd hrole₁ hrole
    · exact h.sole v m₁ ((member_insert_ne hv).1 hm₁) hrole₁
  · have hinsert : (r.exit now u status reason endedBy m row).activeCount +
        Kv.weightAt activeWeight r.members u =
        r.activeCount + activeWeight u (m.exit now status) := activeCount_insert
    have hweight : activeWeight u (m.exit now status) = 0 := if_neg hstatus
    have hcapacity := h.capacity
    have hmax : (r.exit now u status reason endedBy m row).group.maxMembers =
      r.group.maxMembers := rfl
    omega
  · by_cases hv : v = u
    · subst hv
      constructor
      · rintro ⟨row₁, hrow₁, hopen⟩
        by_cases hk : k = m.membershipEpoch
        · subst hk
          rw [Rows.exit, AList.lookup_insert] at hrow₁
          cases hrow₁
          cases hopen
        · have hkey : (v, k) ≠ (v, m.membershipEpoch) := fun heq => hk (Prod.mk.inj heq).2
          rw [Rows.exit, AList.lookup_insert_ne hkey] at hrow₁
          obtain ⟨m₁, hm₁, -, heq⟩ := (h.history v k).1 ⟨row₁, hrow₁, hopen⟩
          obtain rfl := hm.eq hm₁
          exact absurd heq.symm hk
      · rintro ⟨m₁, hm₁, hactive₁, -⟩
        rw [member_insert_self.1 hm₁] at hactive₁
        exact absurd hactive₁ hstatus
    · have hkey : ((v, k) : ℕ × ℕ) ≠ (u, m.membershipEpoch) := fun heq => hv (Prod.mk.inj heq).1
      have hopen : (r.exit now u status reason endedBy m row).Open v k ↔ r.Open v k := by
        simp only [Rows.Open, Rows.exit, AList.lookup_insert_ne hkey]
      rw [hopen, h.history v k]
      exact exists_congr fun m₁ => and_congr_left' (member_insert_ne hv).symm
  · by_cases hv : v = u
    · subst hv
      rw [member_insert_self.1 hm₁]
      exact h.epochs v m hm
    · exact h.epochs v m₁ ((member_insert_ne hv).1 hm₁)

theorem member_transfer {target : ℕ} {m m' : MemberRow} {u : ℕ} {m₁ : MemberRow}
    (hm : r.Member actor m) (hm' : r.Member target m') (hne : target ≠ actor) :
    (r.transfer now actor target m m').Member u m₁ ↔
      (u = target ∧ m₁ = m'.setRole now .owner) ∨ (u = actor ∧ m₁ = m.setRole now .admin) ∨
        (u ≠ target ∧ u ≠ actor ∧ r.Member u m₁) := by
  by_cases htarget : u = target
  · subst htarget
    rw [Rows.transfer, member_insert_self]
    simp [hne]
  · rw [Rows.transfer, member_insert_ne htarget]
    by_cases hactor : u = actor
    · subst hactor
      rw [AList.lookup_insert, Option.some.injEq, eq_comm]
      simp [htarget]
    · rw [AList.lookup_insert_ne hactor]
      simp [htarget, hactor, Rows.Member]

/-- The owner hands its role to another active member. -/
theorem transfer {target : ℕ} {m m' : MemberRow} (h : Structured r) (hm : r.Member actor m)
    (hrole : m.role = .owner) (howner : r.group.ownerUserId = actor) (hm' : r.Member target m')
    (hactive' : m'.status = .active) (hrole' : m'.role ≠ .owner) :
    Structured (r.transfer now actor target m m') := by
  have hne : target ≠ actor := by
    rintro rfl
    exact hrole' (hm.eq hm' ▸ hrole)
  have hmember : ∀ u m₁, (r.transfer now actor target m m').Member u m₁ ↔ _ := fun u m₁ =>
    member_transfer hm hm' hne
  -- a transfer keeps every membership
  have hsame : ∀ u k, (∃ m₁, (r.transfer now actor target m m').Member u m₁ ∧
      m₁.status = .active ∧ m₁.membershipEpoch = k) ↔
      ∃ m₁, r.Member u m₁ ∧ m₁.status = .active ∧ m₁.membershipEpoch = k := by
    intro u k
    constructor
    · rintro ⟨m₁, hm₁, hactive₁, hepoch₁⟩
      rcases (hmember u m₁).1 hm₁ with ⟨rfl, rfl⟩ | ⟨rfl, rfl⟩ | ⟨-, -, hm₁⟩
      · exact ⟨m', hm', hactive₁, hepoch₁⟩
      · exact ⟨m, hm, hactive₁, hepoch₁⟩
      · exact ⟨m₁, hm₁, hactive₁, hepoch₁⟩
    · rintro ⟨m₁, hm₁, hactive₁, hepoch₁⟩
      by_cases htarget : u = target
      · subst htarget
        obtain rfl := hm'.eq hm₁
        exact ⟨_, (hmember u _).2 (.inl ⟨rfl, rfl⟩), hactive₁, hepoch₁⟩
      · by_cases hactor : u = actor
        · subst hactor
          obtain rfl := hm.eq hm₁
          exact ⟨_, (hmember u _).2 (.inr (.inl ⟨rfl, rfl⟩)), hactive₁, hepoch₁⟩
        · exact ⟨m₁, (hmember u m₁).2 (.inr (.inr ⟨htarget, hactor, hm₁⟩)), hactive₁, hepoch₁⟩
  refine ⟨?_, fun u m₁ hm₁ hrole₁ => ?_, ?_, fun u k => ?_, fun u m₁ hm₁ => ?_, touch_versions now _⟩
  · exact ⟨_, (hmember target _).2 (.inl ⟨rfl, rfl⟩), hactive', rfl, rfl⟩
  · rcases (hmember u m₁).1 hm₁ with ⟨rfl, -⟩ | ⟨rfl, rfl⟩ | ⟨-, hactor, hm₁⟩
    · rfl
    · cases hrole₁
    · exact absurd ((h.sole u m₁ hm₁ hrole₁).trans howner) hactor
  · -- both rows stay active
    let r₁ : Rows := { r with members := r.members.insert actor (m.setRole now .admin) }
    have hfirst : r₁.activeCount + Kv.weightAt activeWeight r.members actor =
        r.activeCount + activeWeight actor (m.setRole now .admin) := activeCount_insert
    have hsecond : (r.transfer now actor target m m').activeCount +
        Kv.weightAt activeWeight r₁.members target =
        r₁.activeCount + activeWeight target (m'.setRole now .owner) := activeCount_insert
    have hm₁ : r₁.Member target m' := (member_insert_ne hne).2 hm'
    rw [weightAt_member hm] at hfirst
    rw [weightAt_member hm₁] at hsecond
    have hactor : activeWeight actor (m.setRole now .admin) = activeWeight actor m := rfl
    have htarget : activeWeight target (m'.setRole now .owner) = activeWeight target m' := rfl
    have hcapacity := h.capacity
    have hmax : (r.transfer now actor target m m').group.maxMembers = r.group.maxMembers := rfl
    omega
  · rw [hsame u k]
    exact h.history u k
  · rcases (hmember u m₁).1 hm₁ with ⟨rfl, rfl⟩ | ⟨rfl, rfl⟩ | ⟨-, -, hm₁⟩
    · exact h.epochs u m' hm'
    · exact h.epochs u m hm
    · exact h.epochs u m₁ hm₁

theorem created {name description avatarUrl : Bytes} {joinPolicy : JoinPolicy} {maxMembers : ℕ}
    (hmax : 2 ≤ maxMembers) :
    Structured (createdRows now actor name description avatarUrl joinPolicy maxMembers) := by
  have hmember : ∀ u m, (createdRows now actor name description avatarUrl joinPolicy
      maxMembers).Member u m ↔ u = actor ∧ m = ⟨.owner, .active, 1, none, now, none, now⟩ := by
    intro u m
    by_cases hu : u = actor
    · subst hu
      rw [createdRows, member_insert_self]
      simp
    · rw [createdRows, member_insert_ne hu]
      simp [hu]
  refine ⟨⟨_, (hmember actor _).2 ⟨rfl, rfl⟩, rfl, rfl, rfl⟩, fun u m hm _ => ((hmember u m).1 hm).1,
    ?_, fun u k => ?_, fun u m hm => ?_, show 1 < 2 ^ 64 by decide, show 1 < 2 ^ 64 by decide⟩
  · have hcount : (createdRows now actor name description avatarUrl joinPolicy
      maxMembers).activeCount = 1 := rfl
    have hbound : (createdRows now actor name description avatarUrl joinPolicy
      maxMembers).group.maxMembers = maxMembers := rfl
    omega
  · constructor
    · rintro ⟨row, hrow, -⟩
      by_cases hkey : (u, k) = (actor, 1)
      · cases hkey
        exact ⟨_, (hmember actor _).2 ⟨rfl, rfl⟩, rfl, rfl⟩
      · rw [createdRows, AList.lookup_insert_ne hkey] at hrow
        cases hrow
    · rintro ⟨m, hm, -, rfl⟩
      obtain ⟨rfl, rfl⟩ := (hmember u m).1 hm
      exact ⟨_, AList.lookup_insert _, rfl⟩
  · grind

theorem canKick_target {actor target : Role} (h : canKick actor target = true) :
    target ≠ .owner := by
  rintro rfl
  cases h

theorem canMute_target {actor target : Role} (h : canMute actor target = true) :
    target ≠ .owner := by
  rintro rfl
  cases h

theorem canSetRole_target {actor target : Role} (h : canSetRole actor target = true) :
    actor = .owner ∧ target ≠ .owner := by
  simpa [canSetRole] using h

theorem nextEpoch_lt (member : Option MemberRow) : nextEpoch member < 2 ^ 64 := by
  cases member with
  | none => decide
  | some m => exact next_lt _

theorem change (h : Structured r) (hchange : Change actor now r command r')
    (hrole : ∀ groupId target, command ≠ .setMemberRole groupId target .owner) :
    Structured r' := by
  cases hchange with
  | update _ _ _ _ _ => exact h.group rfl rfl ⟨next_lt _, h.versions.2⟩
  | disband _ _ _ _ _ => exact h.group rfl rfl (touch_versions now _)
  | join hleft hcount _ _ _ =>
    refine h.enter (fun m hm => ?_) hcount (nextEpoch_lt _)
    rw [hleft m hm]
    simp
  | leave hm _ howner _ _ _ => exact h.exit hm howner (by simp)
  | invite _ _ _ hinactive hcount _ _ _ => exact h.enter hinactive hcount (nextEpoch_lt _)
  | kick _ _ hm' _ hkick _ _ _ => exact h.exit hm' (canKick_target hkick) (by simp)
  | @setRole groupId target role m m' _ _ hm' _ hset _ _ =>
    refine h.setMember hm' (canSetRole_target hset).2 (fun howner => ?_) rfl rfl
    exact hrole groupId target (congrArg _ howner)
  | setMute _ _ hm' _ hmute _ =>
    exact h.setMember hm' (canMute_target hmute) (canMute_target hmute) rfl rfl
  | transfer hm _ hactor howner hm' hactive' htarget _ =>
    exact h.transfer hm hactor howner hm' hactive' htarget

end Structured

/-! ## Epochs and versions -/

/-- A membership that is renewed has the next epoch, every other keeps its own, and the first one of
a user has the epoch one; no row of a member goes away. -/
def EpochsMove (r r' : Rows) : Prop :=
  ∀ u, (∀ m, r.Member u m → ∃ m', r'.Member u m' ∧ m'.membershipEpoch =
      if m.status ≠ .active ∧ m'.status = .active then m.membershipEpoch + 1
      else m.membershipEpoch) ∧
    ∀ m', r.members.lookup u = none → r'.Member u m' → m'.membershipEpoch = 1

def Command.metadata : Command → Bool
  | .updateGroup _ _ _ _ _ _ => true
  | _ => false

/-- The version is one further, and so is the member version unless only the description changed. -/
def VersionsMove (command : Command) (r r' : Rows) : Prop :=
  r'.group.version = r.group.version + 1 ∧
    r'.group.memberVersion = r.group.memberVersion + if command.metadata then 0 else 1

theorem EpochsMove.same (hmembers : r'.members = r.members) : EpochsMove r r' := by
  refine fun u => ⟨fun m hm => ⟨m, ?_, ?_⟩, fun m' hnone hm' => ?_⟩
  · rw [Rows.Member, hmembers]
    exact hm
  · rw [if_neg fun hactive => hactive.1 hactive.2]
  · rw [Rows.Member, hmembers, hnone] at hm'
    cases hm'

theorem EpochsMove.insert {u : ℕ} {m' : MemberRow} {group : GroupRow}
    {history : AList fun _ : ℕ × ℕ => HistoryRow}
    (hsome : ∀ m, r.Member u m → m'.membershipEpoch =
      if m.status ≠ .active ∧ m'.status = .active then m.membershipEpoch + 1
      else m.membershipEpoch)
    (hnone : r.members.lookup u = none → m'.membershipEpoch = 1) :
    EpochsMove r ⟨group, r.members.insert u m', history⟩ := by
  intro v
  by_cases hv : v = u
  · subst hv
    refine ⟨fun m hm => ⟨m', member_insert_self.2 rfl, hsome m hm⟩, fun m₁ hm hm₁ => ?_⟩
    rw [member_insert_self.1 hm₁]
    exact hnone hm
  · refine ⟨fun m hm => ⟨m, (member_insert_ne hv).2 hm, ?_⟩, fun m₁ hm hm₁ => ?_⟩
    · rw [if_neg fun hactive => hactive.1 hactive.2]
    · have hlookup := (member_insert_ne hv).1 hm₁
      rw [hm] at hlookup
      cases hlookup

namespace Structured

theorem epochsMove_enter {u : ℕ} (h : Structured r)
    (hinactive : ∀ m, r.Member u m → m.status ≠ .active)
    (hepoch : nextEpoch (r.members.lookup u) ≠ 0) :
    EpochsMove r (r.enter now u (nextEpoch (r.members.lookup u))) := by
  refine EpochsMove.insert (fun m hm => ?_) fun hnone => ?_
  · rw [if_pos ⟨hinactive m hm, rfl⟩]
    rw [hm] at hepoch ⊢
    exact next_eq (h.epochs u m hm) hepoch
  · show nextEpoch (r.members.lookup u) = 1
    rw [hnone]
    rfl

theorem epochsMove_member {u : ℕ} {m m' : MemberRow} {group : GroupRow} (hm : r.Member u m)
    (hactive : m.status = .active) (hepoch : m'.membershipEpoch = m.membershipEpoch) :
    EpochsMove r ⟨group, r.members.insert u m', history⟩ := by
  refine EpochsMove.insert (fun m₁ hm₁ => ?_) fun hnone => ?_
  · obtain rfl := hm.eq hm₁
    simp_all
  · rw [Rows.Member, hnone] at hm
    cases hm

theorem epochsMove (h : Structured r) (hchange : Change actor now r command r') :
    EpochsMove r r' := by
  cases hchange with
  | update _ _ _ _ _ => exact .same rfl
  | disband _ _ _ _ _ => exact .same rfl
  | join hleft _ hepoch _ _ =>
    refine h.epochsMove_enter (fun m hm => ?_) hepoch
    rw [hleft m hm]
    simp
  | leave hm hactive _ _ _ _ => exact epochsMove_member hm hactive rfl
  | invite _ _ _ hinactive _ hepoch _ _ => exact h.epochsMove_enter hinactive hepoch
  | kick _ _ hm' hactive' _ _ _ _ => exact epochsMove_member hm' hactive' rfl
  | setRole _ _ hm' hactive' _ _ _ => exact epochsMove_member hm' hactive' rfl
  | setMute _ _ hm' hactive' _ _ => exact epochsMove_member hm' hactive' rfl
  | @transfer groupId target m m' hm hactive hrole _ hm' hactive' hrole' _ =>
    have hne : target ≠ actor := by
      grind
    have hmember : ∀ u m₁, (r.transfer now actor target m m').Member u m₁ ↔ _ := fun u m₁ =>
      member_transfer hm hm' hne
    have hstill : ∀ {m₀ m₁ : MemberRow}, m₀.status = .active →
        m₁.membershipEpoch = m₀.membershipEpoch → m₁.membershipEpoch =
          if m₀.status ≠ .active ∧ m₁.status = .active then m₀.membershipEpoch + 1
          else m₀.membershipEpoch := fun hactive₀ heq => by
      rw [if_neg fun hinactive => hinactive.1 hactive₀]
      exact heq
    refine fun u => ⟨fun m₁ hm₁ => ?_, fun m₁ hnone hm₁ => ?_⟩
    · by_cases htarget : u = target
      · subst htarget
        obtain rfl := Rows.Member.eq hm' hm₁
        exact ⟨_, (hmember u _).2 (.inl ⟨rfl, rfl⟩), hstill hactive' rfl⟩
      · by_cases hactor : u = actor
        · subst hactor
          obtain rfl := Rows.Member.eq hm hm₁
          exact ⟨_, (hmember u _).2 (.inr (.inl ⟨rfl, rfl⟩)), hstill hactive rfl⟩
        · refine ⟨m₁, (hmember u m₁).2 (.inr (.inr ⟨htarget, hactor, hm₁⟩)), ?_⟩
          rw [if_neg fun hboth => hboth.1 hboth.2]
    · rcases (hmember u m₁).1 hm₁ with ⟨rfl, -⟩ | ⟨rfl, -⟩ | ⟨-, -, hm₁⟩
      · rw [hnone] at hm'
        cases hm'
      · rw [hnone] at hm
        cases hm
      · rw [Rows.Member, hnone] at hm₁
        cases hm₁

theorem versionsMove (h : Structured r) (hchange : Change actor now r command r') :
    VersionsMove command r r' := by
  have hgrows : r.group.Grows → next r.group.version = r.group.version + 1 ∧
      next r.group.memberVersion = r.group.memberVersion + 1 := fun hg =>
    ⟨next_eq h.versions.1 hg.1, next_eq h.versions.2 hg.2⟩
  cases hchange with
  | update _ _ _ _ hversion => exact ⟨next_eq h.versions.1 hversion, rfl⟩
  | disband _ _ _ _ hg => exact hgrows hg
  | join _ _ _ _ hg => exact hgrows hg
  | leave _ _ _ _ _ hg => exact hgrows hg
  | invite _ _ _ _ _ _ _ hg => exact hgrows hg
  | kick _ _ _ _ _ _ _ hg => exact hgrows hg
  | setRole _ _ _ _ _ _ hg => exact hgrows hg
  | setMute _ _ _ _ _ hg => exact hgrows hg
  | transfer _ _ _ _ _ _ _ hg => exact hgrows hg

end Structured

/-! ## Whole runs -/

section Runs

variable {δ κ : Type} {sha256 : Bytes → δ} {collate : Bytes → κ} {s s' : State δ κ} {l : Label}
  {g : ℕ}

def EffectOf (s : State δ κ) (l : Label) (req : Request) : Prop :=
  ∃ c lost g p, l = .effect c lost ∧ s.calls c = some ⟨req, .commit g p⟩

inductive GroupStep (s s' : State δ κ) (l : Label) (g : ℕ) : Prop
  | stay : (∀ req, EffectOf s l req → req.command.groupId ≠ some g) →
      s'.db.groups g = s.db.groups g → GroupStep s s' l g
  | created {req : Request} {e : Env} {name description avatarUrl : Bytes}
      {joinPolicy : JoinPolicy} {maxMembers : ℕ} : EffectOf s l req → s.db.groups g = none →
      req.command = .createGroup name description avatarUrl joinPolicy maxMembers →
      2 ≤ maxMembers →
      s'.db.groups g = some
        (createdRows e.now req.actor name description avatarUrl joinPolicy maxMembers) →
      GroupStep s s' l g
  | changed {req : Request} {e : Env} {r r' : Rows} : EffectOf s l req →
      req.valid = .ok () → req.command.groupId = some g → s.db.groups g = some r →
      s'.db.groups g = some r' → r.group.status = .active →
      Change req.actor e.now r req.command r' → GroupStep s s' l g

theorem EffectOf.eq {req req' : Request} (h : EffectOf s l req) (h' : EffectOf s l req') :
    req = req' := by
  obtain ⟨c, lost, g, p, rfl, hcall⟩ := h
  obtain ⟨c', lost', g', p', heq, hcall'⟩ := h'
  simp_all

theorem groupStep [DecidableEq κ] (hheld : Held collate s) (hvalid : Valid s)
    (hs : Step sha256 collate s l s') (g : ℕ) : GroupStep s s' l g := by
  rcases step_effect hheld hs with ⟨hgroups, -, -, hno⟩ | ⟨c, lost, req, g', p, rfl, heff, hdb, -⟩
  · refine .stay (fun req heff => ?_) (congrFun hgroups g)
    obtain ⟨c, lost, -, -, hl, -⟩ := heff
    exact absurd hl (hno c lost)
  · have heffect : EffectOf s (.effect c lost) req := ⟨c, lost, g', p, rfl, heff.call⟩
    by_cases hg : g = g'
    · subst hg
      have hrows : s'.db.groups g = some p.rows := by
        rw [hdb]
        exact Function.update_self ..
      obtain ⟨e, hwork⟩ := heff.work
      rcases transact_cases hwork with ⟨_, _, _, _, _, hcommand, hmax, hp⟩ | ⟨r, hr, hactive, hchange⟩
      · refine .created heffect ?_ hcommand hmax (hp ▸ hrows)
        rcases heff.group with ⟨hsome, -⟩ | ⟨-, hnone⟩
        · rw [hcommand] at hsome
          cases hsome
        · exact hnone
      · refine .changed heffect (hvalid c req _ heff.call rfl) ?_ hr hrows hactive hchange
        rcases heff.group with ⟨hsome, -⟩ | ⟨-, hnone⟩
        · exact hsome
        · rw [hr] at hnone
          cases hnone
    · refine .stay (fun req' heff' hsome => ?_) ?_
      · obtain rfl := heffect.eq heff'
        rcases heff.group with ⟨hsome', -⟩ | ⟨hnone, -⟩
        · exact hg (Option.some.inj (hsome.symm.trans hsome'))
        · simp_all
      · rw [hdb]
        exact Function.update_of_ne hg ..

theorem valid_setMemberRole {req : Request} (h : req.valid = .ok ()) (groupId target : ℕ) :
    req.command ≠ .setMemberRole groupId target .owner := by
  intro hcommand
  simp only [Request.valid, hcommand, require_eq_ok] at h
  simp at h

theorem Structured.groupStep (h : ∀ g r, s.db.groups g = some r → Structured r)
    (hstep : GroupStep s s' l g) {r' : Rows} (hr' : s'.db.groups g = some r') : Structured r' := by
  cases hstep with
  | stay _ hsame => exact h g r' (hsame ▸ hr')
  | created _ _ _ hmax hrows =>
    obtain rfl := Option.some.inj (hrows.symm.trans hr')
    exact .created hmax
  | changed _ hvalid _ hr hrows _ hchange =>
    obtain rfl := Option.some.inj (hrows.symm.trans hr')
    exact (h g _ hr).change hchange (valid_setMemberRole hvalid)

theorem structured_run [DecidableEq κ] {ls : List Label}
    (hrun : Run (Step sha256 collate) .initial ls s) {r : Rows} (hr : s.db.groups g = some r) :
    Structured r := by
  have hall := hrun.invariant
    (I := fun s => Held collate s ∧ Valid s ∧ ∀ g r, s.db.groups g = some r → Structured r)
    (fun s l s' h hs => ⟨h.1.step hs, h.2.1.step hs, fun g r hr =>
      Structured.groupStep h.2.2 (groupStep h.1 h.2.1 hs g) hr⟩)
    ⟨.init, fun _ _ _ hcall => (by cases hcall), fun _ _ hr => (by cases hr)⟩
  exact hall.2.2 g r hr

/-- In every reachable state, every group has one active owner, who is the owner of its row and is
never muted; it has no more active members than it may have; and a membership is open in the history
exactly while it lasts.  A step that is not the effect of a command on a group leaves its rows alone;
the effect of one moves epochs and versions by one. -/
theorem group_structure [DecidableEq κ] {ls : List Label}
    (hrun : Run (Step sha256 collate) .initial ls s) :
    (∀ g r, s.db.groups g = some r →
      (r.group.status = .active → ∀ u, (∃ m, r.Member u m ∧ m.status = .active ∧ m.role = .owner) ↔
        u = r.group.ownerUserId) ∧
      r.activeCount ≤ r.group.maxMembers ∧
      (∀ u k, r.Open u k ↔ ∃ m, r.Member u m ∧ m.status = .active ∧ m.membershipEpoch = k) ∧
      ∀ m, r.Member r.group.ownerUserId m → m.mutedUntil = none) ∧
    ∀ l s', Step sha256 collate s l s' → ∀ g r, s.db.groups g = some r →
      ∃ r', s'.db.groups g = some r' ∧
        ((∀ req, EffectOf s l req → req.command.groupId ≠ some g) ∧ r' = r ∨
          ∃ req, EffectOf s l req ∧ req.command.groupId = some g ∧ EpochsMove r r' ∧
            VersionsMove req.command r r') := by
  refine ⟨fun g r hr => ?_, fun l s' hs g r hr => ?_⟩
  · have h := structured_run hrun hr
    obtain ⟨m₀, hm₀, hactive₀, hrole₀, hmute₀⟩ := h.owner
    refine ⟨fun _ u => ⟨?_, ?_⟩, h.capacity, h.history, fun m hm => hm₀.eq hm ▸ hmute₀⟩
    · rintro ⟨m, hm, -, hrole⟩
      exact h.sole u m hm hrole
    · rintro rfl
      exact ⟨m₀, hm₀, hactive₀, hrole₀⟩
  · have h := structured_run hrun hr
    cases groupStep (Held.run hrun) (Valid.run hrun) hs g with
    | stay hno hsame => exact ⟨r, hsame.trans hr, .inl ⟨hno, rfl⟩⟩
    | created _ hnone _ _ _ =>
      rw [hr] at hnone
      cases hnone
    | @changed req e r₀ r' heff _ hg hr₀ hr' _ hchange =>
      obtain rfl := Option.some.inj (hr₀.symm.trans hr)
      exact ⟨r', hr', .inr ⟨req, heff, hg, h.epochsMove hchange, h.versionsMove hchange⟩⟩

end Runs

/-! ## A group with its owner alone -/

def soleRequest : Request :=
  ⟨7, Local.ascii "op", .createGroup (Local.ascii "g") [] [] .openJoin 2⟩

def soleRows : Rows := createdRows 0 7 (Local.ascii "g") [] [] .openJoin 2

def solePrepared : Prepared :=
  ⟨soleRows, buildGroupEvent 1 soleRows.group "group.created.v1", some 1⟩

def soleDisband : Request := ⟨7, Local.ascii "end", .disbandGroup 1 1⟩

def disbandedRows : Rows := { soleRows with group := soleRows.group.disband 0 7 }

def disbandPrepared : Prepared :=
  ⟨disbandedRows, buildGroupEvent 1 disbandedRows.group "group.disbanded.v1", none⟩

/-- The run in which the user 7 creates the group 1 and is about to disband it. -/
theorem sole_run : ∃ ls s l s', Run (Step (id : Bytes → Bytes) (id : Bytes → Bytes)) .initial ls s ∧
    Step (id : Bytes → Bytes) (id : Bytes → Bytes) s l s' ∧ s.db.groups 1 = some soleRows ∧
    s'.db.groups 1 = some disbandedRows := by
  have h : Run (Step (id : Bytes → Bytes) (id : Bytes → Bytes)) .initial [] .initial := .nil _
  have h := h.snoc (.arrive (c := 0) rfl (show soleRequest.valid = .ok () from rfl))
  have h := h.snoc (.precheckNone (c := 0) (show _ = some (Call.mk soleRequest .precheck) from rfl)
    (by decide) (by decide) rfl)
  have h := h.snoc (.begin (c := 0) (show _ = some (Call.mk soleRequest .begin) from rfl))
  have h := h.snoc (.create (c := 0) (e := ⟨fun _ => none, fun _ => true, 0⟩) (p := solePrepared)
    (show _ = some (Call.mk soleRequest (.work none)) from rfl) rfl)
  have h := h.snoc (.insertOutbox (c := 0)
    (show _ = some (Call.mk soleRequest (.insertOutbox 1 solePrepared)) from rfl)
    (fun _ hevent => by cases hevent))
  have h := h.snoc (.insertOperation (c := 0)
    (show _ = some (Call.mk soleRequest (.insertOperation 1 solePrepared)) from rfl) rfl
    (fun c' req' g' p' hcall => by
      by_cases hc : c' = 0
      · subst hc
        cases hcall
      · simp [State.go, State.initial, Function.update_of_ne hc] at hcall))
  have h := h.snoc (.commit (c := 0)
    (show _ = some (Call.mk soleRequest (.commit 1 solePrepared)) from rfl))
  have h := h.snoc (.arrive (c := 1) rfl (show soleDisband.valid = .ok () from rfl))
  have h := h.snoc (.precheckNone (c := 1) (show _ = some (Call.mk soleDisband .precheck) from rfl)
    (by decide) (by decide) rfl)
  have h := h.snoc (.begin (c := 1) (show _ = some (Call.mk soleDisband .begin) from rfl))
  have h := h.snoc (.lock (c := 1) (show _ = some (Call.mk soleDisband .lock) from rfl)
    (show _ = some 1 from rfl) (show _ = some soleRows from rfl) rfl (fun c' call hcall hholds => by
      by_cases hc : c' = 0
      · subst hc
        cases hcall
        cases hholds.1
      · by_cases hc' : c' = 1
        · subst hc'
          cases hcall
          cases hholds.1
        · simp [State.go, State.initial, Function.update_of_ne hc, Function.update_of_ne hc']
            at hcall))
  have h := h.snoc (.checkNone (c := 1) (show _ = some (Call.mk soleDisband (.check soleRows)) from rfl)
    rfl)
  have h := h.snoc (.change (c := 1) (e := ⟨fun _ => none, fun _ => true, 0⟩) (p := disbandPrepared)
    (show _ = some (Call.mk soleDisband (.work (some soleRows))) from rfl)
    (show _ = some 1 from rfl) rfl)
  have h := h.snoc (.insertOutbox (c := 1)
    (show _ = some (Call.mk soleDisband (.insertOutbox 1 disbandPrepared)) from rfl)
    (by
      show ∀ event ∈ [solePrepared.event], event.eventId ≠ disbandPrepared.event.eventId
      decide))
  have h := h.snoc (.insertOperation (c := 1)
    (show _ = some (Call.mk soleDisband (.insertOperation 1 disbandPrepared)) from rfl) rfl
    (fun c' req' g' p' hcall => by
      by_cases hc : c' = 0
      · subst hc
        cases hcall
      · by_cases hc' : c' = 1
        · subst hc'
          cases hcall
        · simp [State.go, State.initial, Function.update_of_ne hc, Function.update_of_ne hc']
            at hcall))
  exact ⟨_, _, _, _, h, .commit (c := 1)
    (show _ = some (Call.mk soleDisband (.commit 1 disbandPrepared)) from rfl), rfl, rfl⟩

theorem group_structure_sole : ∃ ls s, Run (Step (id : Bytes → Bytes) (id : Bytes → Bytes))
    .initial ls s ∧ ∃ r, s.db.groups 1 = some r ∧
      ∀ u, (∃ m, r.Member u m ∧ m.status = .active ∧ m.role = .owner) ↔ u = 7 := by
  obtain ⟨ls, s, -, -, hrun, -, hr, -⟩ := sole_run
  exact ⟨ls, s, hrun, _, hr, ((group_structure hrun).1 1 _ hr).1 rfl⟩

end TinyImx.Group
