import TinyImx.Group.Structure

/-!
# Who may change what

`Written` lists the rows of members that a change writes, with the authority of its actor.  What
the owner, an administrator and a plain member can do to others over whole runs is read off it.
-/

namespace TinyImx.Group

open TinyImx.Local (Bytes)

variable {r r' : Rows} {actor now : ℕ} {command : Command} {u : ℕ} {m m' : MemberRow}

/-- The row of `u` that a change of `r` writes. -/
inductive Written (actor now : ℕ) (r : Rows) : Command → ℕ → MemberRow → Prop
  | join {groupId epoch : ℕ} : (∀ m, r.Member actor m → m.status = .left) →
      Written actor now r (.joinGroup groupId) actor (enteredRow now epoch)
  | leave {groupId : ℕ} {m : MemberRow} : r.Member actor m → m.status = .active →
      Written actor now r (.leaveGroup groupId) actor (m.exit now .left)
  | invite {groupId target epoch : ℕ} {m : MemberRow} : r.Member actor m → m.status = .active →
      m.role = .owner ∨ m.role = .admin →
      Written actor now r (.inviteMember groupId target) target (enteredRow now epoch)
  | kick {groupId target : ℕ} {m m' : MemberRow} : r.Member actor m → m.status = .active →
      r.Member target m' → m'.status = .active → canKick m.role m'.role = true →
      Written actor now r (.kickMember groupId target) target (m'.exit now .kicked)
  | setRole {groupId target : ℕ} {role : Role} {m m' : MemberRow} : r.Member actor m →
      m.status = .active → m.role = .owner → r.Member target m' → m'.status = .active →
      Written actor now r (.setMemberRole groupId target role) target (m'.setRole now role)
  | setMute {groupId target : ℕ} {mutedUntil : Bytes} {m m' : MemberRow} : r.Member actor m →
      m.status = .active → r.Member target m' → m'.status = .active →
      canMute m.role m'.role = true →
      Written actor now r (.setMemberMute groupId target mutedUntil) target
        (m'.setMute now mutedUntil)
  | demote {groupId target : ℕ} {m : MemberRow} : r.Member actor m → m.status = .active →
      m.role = .owner →
      Written actor now r (.transferOwnership groupId target) actor (m.setRole now .admin)
  | promote {groupId target : ℕ} {m m' : MemberRow} : r.Member actor m → m.status = .active →
      m.role = .owner → r.Member target m' → m'.status = .active →
      Written actor now r (.transferOwnership groupId target) target (m'.setRole now .owner)

theorem Change.member (h : Change actor now r command r') (hm' : r'.Member u m') :
    r.Member u m' ∨ Written actor now r command u m' := by
  -- one row is written, for the user `v`
  have hone : ∀ {v : ℕ} {m₁ : MemberRow} {group : GroupRow}
      {history : AList fun _ : ℕ × ℕ => HistoryRow}, Written actor now r command v m₁ →
      (Rows.mk group (r.members.insert v m₁) history).Member u m' →
      r.Member u m' ∨ Written actor now r command u m' := fun {v m₁ group history} hw hm' => by
    by_cases hv : u = v
    · subst hv
      rw [member_insert_self.1 hm']
      exact .inr hw
    · exact .inl ((member_insert_ne hv).1 hm')
  cases h with
  | update _ _ _ _ _ => exact .inl hm'
  | disband _ _ _ _ _ => exact .inl hm'
  | join hleft _ _ _ _ => exact hone (.join hleft) hm'
  | leave hm hactive _ _ _ _ => exact hone (.leave hm hactive) hm'
  | invite hm hactive hrole _ _ _ _ _ => exact hone (.invite hm hactive hrole) hm'
  | kick hm hactive ht hactive' hkick _ _ _ =>
    exact hone (.kick hm hactive ht hactive' hkick) hm'
  | setRole hm hactive ht hactive' hset _ _ =>
    exact hone (.setRole hm hactive (Structured.canSetRole_target hset).1 ht hactive') hm'
  | setMute hm hactive ht hactive' hmute _ =>
    exact hone (.setMute hm hactive ht hactive' hmute) hm'
  | @transfer groupId target m m' hm hactive hrole _ ht hactive' hrole' _ =>
    have hne : target ≠ actor := by
      rintro rfl
      exact hrole' (Rows.Member.eq hm ht ▸ hrole)
    rcases (Structured.member_transfer hm ht hne).1 hm' with ⟨rfl, rfl⟩ | ⟨rfl, rfl⟩ | ⟨-, -, hm'⟩
    · exact .inr (.promote hm hactive hrole ht hactive')
    · exact .inr (.demote hm hactive hrole)
    · exact .inl hm'

theorem Change.history (h : Change actor now r command r')
    (hnot : ∀ m', ¬ Written actor now r command u m') (k : ℕ) :
    r'.history.lookup (u, k) = r.history.lookup (u, k) := by
  have hne : ∀ {v : ℕ} (m₁ : MemberRow) (k' : ℕ), Written actor now r command v m₁ →
      ((u, k) : ℕ × ℕ) ≠ (v, k') := fun {v} m₁ k' hw heq => by
    simp_all
  cases h with
  | update _ _ _ _ _ => rfl
  | disband _ _ _ _ _ => rfl
  | join hleft _ _ _ _ =>
    exact AList.lookup_insert_ne (hne (enteredRow now 0) _ (.join hleft))
  | leave hm hactive _ _ _ _ => exact AList.lookup_insert_ne (hne _ _ (.leave hm hactive))
  | invite hm hactive hrole _ _ _ _ _ =>
    exact AList.lookup_insert_ne (hne (enteredRow now 0) _ (.invite hm hactive hrole))
  | kick hm hactive ht hactive' hkick _ _ _ =>
    exact AList.lookup_insert_ne (hne _ _ (.kick hm hactive ht hactive' hkick))
  | setRole _ _ _ _ _ _ _ => rfl
  | setMute _ _ _ _ _ _ => rfl
  | transfer _ _ _ _ _ _ _ _ => rfl

def Rows.Leads (r : Rows) (u : ℕ) : Prop :=
  ∃ m, r.Member u m ∧ m.status = .active ∧ (m.role = .owner ∨ m.role = .admin)

def Rows.Owns (r : Rows) (u : ℕ) : Prop :=
  r.group.status = .active ∧ r.group.ownerUserId = u ∧
    ∃ m, r.Member u m ∧ m.status = .active ∧ m.role = .owner

theorem canKick_cases {actor target : Role} (h : canKick actor target = true) :
    actor = .owner ∨ actor = .admin ∧ target = .member := by
  cases actor <;> cases target <;> first | exact .inl rfl | exact .inr ⟨rfl, rfl⟩ | cases h

theorem canMute_cases {actor target : Role} (h : canMute actor target = true) :
    actor = .owner ∨ actor = .admin ∧ target = .member := by
  cases actor <;> cases target <;> first | exact .inl rfl | exact .inr ⟨rfl, rfl⟩ | cases h

/-! ## What a written row says about its actor -/

namespace Written

theorem admin (h : Written actor now r command u m') (hrole : m'.role = .admin)
    (hbefore : ¬ ∃ m, r.Member u m ∧ m.role = .admin) :
    (∃ groupId, command = .setMemberRole groupId u .admin ∧
      ∃ m, r.Member actor m ∧ m.status = .active ∧ m.role = .owner) ∨
    (∃ groupId target, command = .transferOwnership groupId target) ∧ u = actor ∧
      ∃ m, r.Member actor m ∧ m.status = .active ∧ m.role = .owner := by
  cases h with
  | join _ => cases hrole
  | leave hm _ => exact absurd ⟨_, hm, hrole⟩ hbefore
  | invite _ _ _ => cases hrole
  | kick _ _ hm' _ _ => exact absurd ⟨_, hm', hrole⟩ hbefore
  | setRole hm hactive howner _ _ =>
    obtain rfl : _ = Role.admin := hrole
    exact .inl ⟨_, rfl, _, hm, hactive, howner⟩
  | setMute _ _ hm' _ _ => exact absurd ⟨_, hm', hrole⟩ hbefore
  | demote hm hactive howner => exact .inr ⟨⟨_, _, rfl⟩, rfl, _, hm, hactive, howner⟩
  | promote _ _ _ _ _ => cases hrole

theorem rejoin (h : Written actor now r command u m') (hm : r.Member u m)
    (hkicked : m.status = .kicked) (hactive : m'.status = .active) :
    (∃ groupId, command = .inviteMember groupId u) ∧ r.Leads actor := by
  cases h with
  | join hleft =>
    simp_all
  | leave _ _ => cases hactive
  | invite ha hactive' hrole => exact ⟨⟨_, rfl⟩, _, ha, hactive', hrole⟩
  | kick _ _ _ _ _ => cases hactive
  | setRole _ _ _ ht ht' =>
    rw [ht.eq hm, hkicked] at ht'
    cases ht'
  | setMute _ _ ht ht' _ =>
    rw [ht.eq hm, hkicked] at ht'
    cases ht'
  | demote ha ha' _ =>
    rw [ha.eq hm, hkicked] at ha'
    cases ha'
  | promote _ _ _ ht ht' =>
    rw [ht.eq hm, hkicked] at ht'
    cases ht'

theorem exit (h : Written actor now r command u m') (hm : r.Member u m)
    (hinactive : m'.status ≠ .active) :
    (∃ groupId, command = .leaveGroup groupId) ∧ u = actor ∨
    (∃ groupId, command = .kickMember groupId u) ∧ ∃ ma, r.Member actor ma ∧
      ma.status = .active ∧ (ma.role = .owner ∨ ma.role = .admin ∧ m.role = .member) := by
  cases h with
  | join _ => exact absurd rfl hinactive
  | leave _ _ => exact .inl ⟨⟨_, rfl⟩, rfl⟩
  | invite _ _ _ => exact absurd rfl hinactive
  | kick ha ha' ht _ hkick =>
    obtain rfl := hm.eq ht
    exact .inr ⟨⟨_, rfl⟩, _, ha, ha', canKick_cases hkick⟩
  | setRole _ _ _ _ ht' => exact absurd ht' hinactive
  | setMute _ _ _ ht' _ => exact absurd ht' hinactive
  | demote _ ha' _ => exact absurd ha' hinactive
  | promote _ _ _ _ ht' => exact absurd ht' hinactive

theorem leads (h : Written actor now r command u m') (hother : u ≠ actor) : r.Leads actor := by
  cases h with
  | join _ => exact absurd rfl hother
  | leave _ _ => exact absurd rfl hother
  | invite ha ha' hrole => exact ⟨_, ha, ha', hrole⟩
  | kick ha ha' _ _ hkick =>
    exact ⟨_, ha, ha', (canKick_cases hkick).imp id And.left⟩
  | setRole ha ha' howner _ _ => exact ⟨_, ha, ha', .inl howner⟩
  | setMute ha ha' _ _ hmute => exact ⟨_, ha, ha', (canMute_cases hmute).imp id And.left⟩
  | demote _ _ _ => exact absurd rfl hother
  | promote ha ha' howner _ _ => exact ⟨_, ha, ha', .inl howner⟩

end Written

/-! ## Whole runs -/

theorem Change.owner (h : Change actor now r command r') (hactive : r.group.status = .active) :
    r'.group.status = .active ∧ r'.group.ownerUserId = r.group.ownerUserId ∨
      actor = r.group.ownerUserId ∧ ((∃ groupId target, command = .transferOwnership groupId target) ∨
        ∃ groupId version, command = .disbandGroup groupId version) := by
  cases h with
  | disband _ _ _ howner _ => exact .inr ⟨howner, .inr ⟨_, _, rfl⟩⟩
  | transfer _ _ _ howner _ _ _ _ => exact .inr ⟨howner.symm, .inl ⟨_, _, rfl⟩⟩
  | _ => exact .inl ⟨hactive, rfl⟩

theorem Change.untouched (h : Change actor now r command r') (hstruct : Structured r)
    (hnot : ∀ m', ¬ Written actor now r command u m') : r'.members.lookup u = r.members.lookup u := by
  cases hm' : r'.members.lookup u with
  | some m' => exact (((h.member hm').resolve_right (hnot m'))).symm
  | none =>
    cases hm : r.members.lookup u with
    | none => rfl
    | some m =>
      obtain ⟨m', hsome, -⟩ := (hstruct.epochsMove h u).1 m hm
      rw [Rows.Member, hm'] at hsome
      cases hsome

section Runs

variable {δ κ : Type} [DecidableEq κ] {sha256 : Bytes → δ} {collate : Bytes → κ}
  {s s' : State δ κ} {l : Label} {g : ℕ} {ls : List Label}

theorem Structured.owns (h : Structured r) (hactive : r.group.status = .active) :
    r.Owns r.group.ownerUserId := by
  obtain ⟨m, hm, hstatus, hrole, -⟩ := h.owner
  exact ⟨hactive, rfl, m, hm, hstatus, hrole⟩

theorem disbanded_run (hrun : Run (Step sha256 collate) .initial ls s) {ls' : List Label}
    (hrest : Run (Step sha256 collate) s ls' s') (hr : s.db.groups g = some r)
    (hdisbanded : r.group.status = .disbanded) : s'.db.groups g = some r := by
  have hall := hrest.invariant
    (I := fun s' => Held collate s' ∧ Valid s' ∧ s'.db.groups g = some r)
    (fun s₁ l s₂ h hs => ⟨h.1.step hs, h.2.1.step hs, ?_⟩)
    ⟨Held.run hrun, Valid.run hrun, hr⟩
  · exact hall.2.2
  · cases groupStep h.1 h.2.1 hs g with
    | stay _ hsame => exact hsame.trans h.2.2
    | created _ hnone _ _ _ =>
      rw [h.2.2] at hnone
      cases hnone
    | changed _ _ _ hr₀ _ hactive _ =>
      simp_all

/-- What a step of a run may do to the members of a group, and by whose authority. -/
theorem group_authority (hrun : Run (Step sha256 collate) .initial ls s)
    (hs : Step sha256 collate s l s') {r r' : Rows} (hr : s.db.groups g = some r)
    (hr' : s'.db.groups g = some r') :
    (∀ u, r.Owns u → ¬ r'.Owns u → ∃ req, EffectOf s l req ∧ req.actor = u ∧
      ((∃ target, req.command = .transferOwnership g target) ∨
        ∃ version, req.command = .disbandGroup g version)) ∧
    (∀ u m', r'.Member u m' → m'.role = .admin → (¬ ∃ m, r.Member u m ∧ m.role = .admin) →
      ∃ req, EffectOf s l req ∧ r.Owns req.actor ∧ (req.command = .setMemberRole g u .admin ∨
        req.actor = u ∧ ∃ target, req.command = .transferOwnership g target)) ∧
    (∀ u m m', r.Member u m → m.status = .kicked → r'.Member u m' → m'.status = .active →
      ∃ req, EffectOf s l req ∧ req.command = .inviteMember g u ∧ r.Leads req.actor) ∧
    (∀ u m m', r.Member u m → m.status = .active → r'.Member u m' → m'.status ≠ .active →
      ∃ req, EffectOf s l req ∧ (req.command = .leaveGroup g ∧ req.actor = u ∨
        req.command = .kickMember g u ∧ ∃ ma, r.Member req.actor ma ∧ ma.status = .active ∧
          (ma.role = .owner ∨ ma.role = .admin ∧ m.role = .member))) ∧
    (∀ req, EffectOf s l req → req.command.groupId = some g → ¬ r.Leads req.actor →
      ∀ u, u ≠ req.actor → r'.members.lookup u = r.members.lookup u ∧
        ∀ k, r'.history.lookup (u, k) = r.history.lookup (u, k)) ∧
    (r.group.status = .disbanded → ∀ ls' s'', Run (Step sha256 collate) s ls' s'' →
      s''.db.groups g = some r) := by
  have hstruct := structured_run hrun hr
  have hstruct' := structured_run (.snoc hrun hs) hr'
  have hfrozen : r.group.status = .disbanded → ∀ ls' s'', Run (Step sha256 collate) s ls' s'' →
      s''.db.groups g = some r := fun hdisbanded _ _ hrest =>
    disbanded_run hrun hrest hr hdisbanded
  cases groupStep (Held.run hrun) (Valid.run hrun) hs g with
  | stay hno hsame =>
    obtain rfl : r' = r := Option.some.inj (hr'.symm.trans (hsame.trans hr))
    refine ⟨fun u ho hn => absurd ho hn, fun u m' hm' hrole hno' => absurd ⟨m', hm', hrole⟩ hno',
      fun u m m' hm hk hm' ha => ?_, fun u m m' hm ha hm' hn => ?_,
      fun req heff hg => absurd hg (hno req heff), hfrozen⟩
    · rw [hm.eq hm', ha] at hk
      cases hk
    · rw [hm.eq hm'] at ha
      exact absurd ha hn
  | created _ hnone _ _ _ =>
    rw [hr] at hnone
    cases hnone
  | @changed req e r₀ r₁ heff _ hg hr₀ hr₁ hactive hchange =>
    obtain rfl := Option.some.inj (hr₀.symm.trans hr)
    obtain rfl := Option.some.inj (hr₁.symm.trans hr')
    have howns : ∀ m, r₀.Member req.actor m → m.role = .owner → r₀.Owns req.actor :=
      fun m hm hrole => by
        rw [hstruct.sole _ m hm hrole]
        exact hstruct.owns hactive
    refine ⟨fun u ho hn => ?_, fun u m' hm' hrole hno => ?_, fun u m m' hm hk hm' ha => ?_,
      fun u m m' hm ha hm' hn => ?_, fun req' heff' _ hlead u hu => ?_, hfrozen⟩
    · rcases hchange.owner hactive with ⟨hactive', howner'⟩ | ⟨hactor, hcommand⟩
      · refine absurd ?_ hn
        rw [← ho.2.1, ← howner']
        exact hstruct'.owns hactive'
      · refine ⟨req, heff, hactor.trans ho.2.1, ?_⟩
        rcases hcommand with ⟨_, target, hcommand⟩ | ⟨_, version, hcommand⟩
        · rw [hcommand] at hg ⊢
          cases hg
          exact .inl ⟨target, rfl⟩
        · rw [hcommand] at hg ⊢
          cases hg
          exact .inr ⟨version, rfl⟩
    · rcases hchange.member hm' with hm | hw
      · exact absurd ⟨m', hm, hrole⟩ hno
      · refine ⟨req, heff, ?_⟩
        rcases hw.admin hrole hno with ⟨_, hcommand, m, hm, -, howner⟩ |
          ⟨⟨_, target, hcommand⟩, hu, m, hm, -, howner⟩
        · rw [hcommand] at hg ⊢
          cases hg
          exact ⟨howns m hm howner, .inl rfl⟩
        · rw [hcommand] at hg ⊢
          cases hg
          exact ⟨howns m hm howner, .inr ⟨hu.symm, target, rfl⟩⟩
    · rcases hchange.member hm' with hsame | hw
      · rw [hm.eq hsame, ha] at hk
        cases hk
      · obtain ⟨⟨_, hcommand⟩, hlead⟩ := hw.rejoin hm hk ha
        refine ⟨req, heff, ?_, hlead⟩
        rw [hcommand] at hg ⊢
        cases hg
        rfl
    · rcases hchange.member hm' with hsame | hw
      · rw [hm.eq hsame] at ha
        exact absurd ha hn
      · refine ⟨req, heff, ?_⟩
        rcases hw.exit hm hn with ⟨⟨_, hcommand⟩, hu⟩ | ⟨⟨_, hcommand⟩, hlead⟩
        · rw [hcommand] at hg ⊢
          cases hg
          exact .inl ⟨rfl, hu.symm⟩
        · rw [hcommand] at hg ⊢
          cases hg
          exact .inr ⟨rfl, hlead⟩
    · obtain rfl := heff.eq heff'
      have hnot : ∀ m', ¬ Written req.actor e.now r₀ req.command u m' := fun m' hw =>
        hlead (hw.leads hu)
      exact ⟨hchange.untouched hstruct hnot, hchange.history hnot⟩

end Runs

theorem group_authority_sole : ∃ ls s l s', Run (Step (id : Bytes → Bytes) (id : Bytes → Bytes))
    .initial ls s ∧ Step (id : Bytes → Bytes) (id : Bytes → Bytes) s l s' ∧
    ∃ r r', s.db.groups 1 = some r ∧ s'.db.groups 1 = some r' ∧ r.Owns 7 ∧ ¬ r'.Owns 7 ∧
      ∃ req, EffectOf s l req ∧ req.actor = 7 ∧
        ((∃ target, req.command = .transferOwnership 1 target) ∨
          ∃ version, req.command = .disbandGroup 1 version) := by
  obtain ⟨ls, s, l, s', hrun, hs, hr, hr'⟩ := sole_run
  have howns : soleRows.Owns 7 := ⟨rfl, rfl, _, rfl, rfl, rfl⟩
  have hnot : ¬ disbandedRows.Owns 7 := fun h => by cases h.1
  exact ⟨ls, s, l, s', hrun, hs, _, _, hr, hr', howns, hnot,
    (group_authority hrun hs hr hr').1 7 howns hnot⟩

end TinyImx.Group
