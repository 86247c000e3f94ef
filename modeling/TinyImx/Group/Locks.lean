import TinyImx.Group.Calls

/-!
# What the locks hold fixed

A call that holds the lock on its group's row works on the committed rows: no other call commits to
that group before it.  So the effect of a commit is that of the command's transaction on the rows as
they are at the commit, and between commits the tables do not change.
-/

namespace TinyImx.Group

open TinyImx.Local (Bytes)

variable {δ κ : Type} {sha256 : Bytes → δ} {collate : Bytes → κ}
  {s s' : State δ κ} {l : Label} {c : ℕ} {req : Request} {phase : Phase}

def Phase.read : Phase → Option Rows
  | .check r => some r
  | .work rows => rows
  | _ => none

def Phase.prepared : Phase → Option (ℕ × Prepared)
  | .insertOutbox g p | .insertOperation g p | .commit g p => some (g, p)
  | _ => none

def SameKey (collate : Bytes → κ) (req req' : Request) : Prop :=
  req'.actor = req.actor ∧ collate req'.clientOperationId = collate req.clientOperationId

/-- What the call `c` relies on. -/
structure Okay (collate : Bytes → κ) (s : State δ κ) (c : ℕ) (req : Request) (phase : Phase) :
    Prop where
  read : ∀ r, phase.read = some r →
    ∃ g, req.command.groupId = some g ∧ s.db.groups g = some r
  created : phase = .work none → req.command.groupId = none
  prepared : ∀ g p, phase.prepared = some (g, p) →
    (∃ e, req.transact e g (s.db.groups g) = .ok p) ∧
      (req.command.groupId = some g ∧ s.db.groups g ≠ none ∨
        req.command.groupId = none ∧ s.db.groups g = none ∧ g < s.db.nextGroup)
  exclusive : phase.holds = true → ∀ g, req.command.groupId = some g →
    ∀ c' call, c' ≠ c → s.calls c' = some call → ¬ call.holds g
  fresh : ∀ g p, phase.prepared = some (g, p) → req.command.groupId = none →
    ∀ c' req' phase' p', c' ≠ c → s.calls c' = some ⟨req', phase'⟩ →
      phase'.prepared = some (g, p') → req'.command.groupId ≠ none
  key : ∀ g p, phase = .commit g p → s.db.find collate req = none ∧
    ∀ c' req' g' p', c' ≠ c → s.calls c' = some ⟨req', .commit g' p'⟩ → ¬ SameKey collate req req'

/-- Every call is `Okay`, and the ids of groups are those already given. -/
structure Held (collate : Bytes → κ) (s : State δ κ) : Prop where
  okay : ∀ c req phase, s.calls c = some ⟨req, phase⟩ → Okay collate s c req phase
  ids : ∀ g, s.db.groups g ≠ none → g < s.db.nextGroup

theorem Phase.holds_of_prepared {g : ℕ} {p : Prepared} (h : phase.prepared = some (g, p)) :
    phase.holds = true := by
  cases phase <;> first | rfl | cases h

theorem Phase.holds_of_read {r : Rows} (h : phase.read = some r) : phase.holds = true := by
  cases phase <;> first | rfl | cases h

theorem transact_fresh {e : Env} {fresh fresh' : ℕ} {rows : Option Rows}
    (h : req.command.groupId ≠ none) : req.transact e fresh rows = req.transact e fresh' rows := by
  obtain ⟨actor, id, command⟩ := req
  cases command with
  | createGroup => exact absurd rfl h
  | _ => cases rows <;> rfl

namespace Okay

theorem idle (hread : phase.read = none) (hprepared : phase.prepared = none)
    (hholds : phase.holds = false) : Okay collate s c req phase where
  read r h := by rw [hread] at h; cases h
  created h := by rw [h] at hholds; cases hholds
  prepared g p h := by rw [hprepared] at h; cases h
  exclusive h := by rw [hholds] at h; cases h
  fresh g p h := by rw [hprepared] at h; cases h
  key g p h := by rw [h] at hholds; cases hholds

theorem other {c₀ : ℕ} {req₀ : Request} {phase₀ : Phase} (h : Okay collate s c req phase)
    (hne : c ≠ c₀) (hcall : s.calls c = some ⟨req, phase⟩)
    (h₀ : Okay collate s c₀ req₀ phase₀) :
    Okay collate (s.go c₀ req₀ phase₀) c req phase where
  read := h.read
  created := h.created
  prepared := h.prepared
  exclusive hholds g hg c' call hc' hcall' := by
    by_cases heq : c' = c₀
    · subst heq
      simp only [State.go_calls_self, Option.some.injEq] at hcall'
      subst hcall'
      rintro ⟨hholds', hg'⟩
      exact h₀.exclusive hholds' g hg' c _ hne hcall ⟨hholds, hg⟩
    · rw [State.go_calls_ne heq] at hcall'
      exact h.exclusive hholds g hg c' call hc' hcall'
  fresh g p hp hg c' req' phase' p' hc' hcall' hp' := by
    by_cases heq : c' = c₀
    · subst heq
      simp only [State.go_calls_self, Option.some.injEq, Call.mk.injEq] at hcall'
      obtain ⟨rfl, rfl⟩ := hcall'
      exact fun hnone => h₀.fresh g p' hp' hnone c _ _ p hne hcall hp hg
    · rw [State.go_calls_ne heq] at hcall'
      exact h.fresh g p hp hg c' req' phase' p' hc' hcall' hp'
  key g p hp := by
    refine ⟨(h.key g p hp).1, fun c' req' g' p' hc' hcall' hsame => ?_⟩
    by_cases heq : c' = c₀
    · subst heq
      simp only [State.go_calls_self, Option.some.injEq, Call.mk.injEq] at hcall'
      obtain ⟨rfl, hphase⟩ := hcall'
      subst hp
      exact (h₀.key g' p' hphase).2 c _ g p hne hcall ⟨hsame.1.symm, hsame.2.symm⟩
    · rw [State.go_calls_ne heq] at hcall'
      exact (h.key g p hp).2 c' req' g' p' hc' hcall' hsame

theorem mover (h : Okay collate s c req phase) : Okay collate (s.go c req phase) c req phase where
  read := h.read
  created := h.created
  prepared := h.prepared
  exclusive hholds g hg c' call hc' hcall' := by
    rw [State.go_calls_ne hc'] at hcall'
    exact h.exclusive hholds g hg c' call hc' hcall'
  fresh g p hp hg c' req' phase' p' hc' hcall' := by
    rw [State.go_calls_ne hc'] at hcall'
    exact h.fresh g p hp hg c' req' phase' p' hc' hcall'
  key g p hp := by
    refine ⟨(h.key g p hp).1, fun c' req' g' p' hc' hcall' => ?_⟩
    rw [State.go_calls_ne hc'] at hcall'
    exact (h.key g p hp).2 c' req' g' p' hc' hcall'

end Okay

namespace Held

theorem init : Held collate (State.initial : State δ κ) where
  okay _ _ _ h := by cases h
  ids _ h := absurd rfl h

theorem go (h : Held collate s) (hc : Okay collate s c req phase) :
    Held collate (s.go c req phase) where
  okay c' req' phase' hcall := by
    by_cases heq : c' = c
    · subst heq
      simp only [State.go_calls_self, Option.some.injEq, Call.mk.injEq] at hcall
      obtain ⟨rfl, rfl⟩ := hcall
      exact hc.mover
    · rw [State.go_calls_ne heq] at hcall
      exact (h.okay c' req' phase' hcall).other heq hcall hc
  ids := h.ids

theorem skip (h : Held collate s) :
    Held collate { s with db := { s.db with nextGroup := s.db.nextGroup + 1 } } where
  okay c req phase hcall := by
    have hc := h.okay c req phase hcall
    refine ⟨hc.read, hc.created, fun g p hp => ?_, hc.exclusive, hc.fresh, hc.key⟩
    obtain ⟨hwork, hchange | ⟨hg, hnone, hlt⟩⟩ := hc.prepared g p hp
    · exact ⟨hwork, .inl hchange⟩
    · exact ⟨hwork, .inr ⟨hg, hnone, Nat.lt_succ_of_lt hlt⟩⟩
  ids g hg := Nat.lt_succ_of_lt (h.ids g hg)

theorem goIdle (h : Held collate s) (hread : phase.read = none) (hprepared : phase.prepared = none)
    (hholds : phase.holds = false) : Held collate (s.go c req phase) :=
  h.go (.idle hread hprepared hholds)

theorem goPrepared {phase' : Phase} {g : ℕ} {p : Prepared} (h : Held collate s)
    (hcall : s.calls c = some ⟨req, phase⟩) (hp : phase.prepared = some (g, p))
    (hp' : phase'.prepared = some (g, p)) (hread : phase'.read = none)
    (hkey : ∀ g' p', phase' = .commit g' p' → s.db.find collate req = none ∧
      ∀ c' req' g' p', c' ≠ c → s.calls c' = some ⟨req', .commit g' p'⟩ → ¬ SameKey collate req req') :
    Held collate (s.go c req phase') := by
  have hc := h.okay c req phase hcall
  refine h.go ⟨fun r hr => ?_, fun hwork => ?_, fun g' p' hg' => ?_,
    fun _ => hc.exclusive (Phase.holds_of_prepared hp), fun g' p' hg' => ?_, hkey⟩
  · rw [hread] at hr
    cases hr
  · rw [hwork] at hp'
    cases hp'
  · rw [hp', ← hp] at hg'
    exact hc.prepared g' p' hg'
  · rw [hp', ← hp] at hg'
    exact hc.fresh g' p' hg'

variable [DecidableEq κ]

theorem find_commit_of_not {req₀ : Request} {g : ℕ} {p : Prepared} {db : Db δ κ}
    (h : ¬ SameKey collate req req₀) :
    (db.commit sha256 collate req₀ g p).find collate req = db.find collate req := by
  simp only [Db.find, Db.commit]
  by_cases hactor : req.actor = req₀.actor
  · have hid : collate req.clientOperationId ≠ collate req₀.clientOperationId := fun heq =>
      h ⟨hactor.symm, heq.symm⟩
    rw [hactor, Function.update_self, Function.update_of_ne hid]
  · rw [Function.update_of_ne hactor]

/-- The effect of a commit. -/
theorem commit {g : ℕ} {p : Prepared} (h : Held collate s)
    (hcall : s.calls c = some ⟨req, .commit g p⟩) (hread : phase.read = none)
    (hprepared : phase.prepared = none) (hholds : phase.holds = false) :
    Held collate { s.go c req phase with db := s.db.commit sha256 collate req g p } := by
  have hc := h.okay c req _ hcall
  obtain ⟨-, hgroup⟩ := hc.prepared g p rfl
  -- the other calls hold other groups
  have hother : ∀ c' req' phase', c' ≠ c → s.calls c' = some ⟨req', phase'⟩ →
      ∀ g', phase'.holds = true → req'.command.groupId = some g' → s.db.groups g' ≠ none →
      (s.db.commit sha256 collate req g p).groups g' = s.db.groups g' := by
    intro c' req' phase' hne hcall' g' hholds' hg' hsome
    refine Function.update_of_ne ?_ _ _
    rintro rfl
    rcases hgroup with ⟨hg, -⟩ | ⟨-, hnone, -⟩
    · exact hc.exclusive rfl g' hg c' _ hne hcall' ⟨hholds', hg'⟩
    · exact hsome hnone
  refine ⟨fun c' req' phase' hcall' => ?_, fun g' hg' => ?_⟩
  · by_cases heq : c' = c
    · subst heq
      simp only [State.go_calls_self, Option.some.injEq, Call.mk.injEq] at hcall'
      obtain ⟨rfl, rfl⟩ := hcall'
      exact .idle hread hprepared hholds
    · rw [State.go_calls_ne heq] at hcall'
      have hc' := h.okay c' req' phase' hcall'
      have hmoved := hc'.other heq hcall' (.idle hread hprepared hholds : Okay collate s c req phase)
      refine ⟨fun r hr => ?_, hc'.created, fun g' p' hp' => ?_, hmoved.exclusive, hmoved.fresh,
        fun g' p' hp' => ⟨?_, (hmoved.key g' p' hp').2⟩⟩
      · obtain ⟨g', hg', hr'⟩ := hc'.read r hr
        refine ⟨g', hg', ?_⟩
        rw [← hr']
        exact hother c' req' phase' heq hcall' g' (Phase.holds_of_read hr) hg' (by rw [hr']; simp)
      · obtain ⟨⟨e, hwork⟩, hcase⟩ := hc'.prepared g' p' hp'
        have hsame : (s.db.commit sha256 collate req g p).groups g' = s.db.groups g' := by
          rcases hcase with ⟨hg', hsome⟩ | ⟨hg', hnone, -⟩
          · exact hother c' req' phase' heq hcall' g' (Phase.holds_of_prepared hp') hg' hsome
          · refine Function.update_of_ne ?_ _ _
            rintro rfl
            rcases hgroup with ⟨-, hsome⟩ | ⟨hg, -, -⟩
            · exact hsome hnone
            · exact hc'.fresh g' p' hp' hg' c _ _ p (Ne.symm heq) hcall rfl hg
        refine ⟨⟨e, ?_⟩, ?_⟩
        · exact (congrArg _ hsame).trans hwork
        · exact hsame ▸ hcase
      · rw [find_commit_of_not]
        · exact (hc'.key g' p' hp').1
        · subst hp'
          exact (hc'.key g' p' rfl).2 c req g p (Ne.symm heq) hcall
  · by_cases heq : g' = g
    · subst heq
      rcases hgroup with ⟨-, hsome⟩ | ⟨-, -, hlt⟩
      · exact h.ids g' hsome
      · exact hlt
    · refine h.ids g' ?_
      simpa only [Db.commit, Function.update_of_ne heq] using hg'

theorem step (h : Held collate s) (hs : Step sha256 collate s l s') : Held collate s' := by
  cases hs with
  | arrive _ _ => exact h.goIdle rfl rfl rfl
  | refuse _ _ => exact h.goIdle rfl rfl rfl
  | skipId => exact h.skip
  | fault _ _ _ => exact h.goIdle rfl rfl rfl
  | precheckFound _ _ => exact h.goIdle rfl rfl rfl
  | precheckNone _ _ _ _ => exact h.goIdle rfl rfl rfl
  | resolveMissing _ _ => exact h.goIdle rfl rfl rfl
  | resolveConflict _ _ _ _ => exact h.goIdle rfl rfl rfl
  | resolveMatch _ _ _ => exact h.goIdle rfl rfl rfl
  | viewMissing _ _ _ => exact h.goIdle rfl rfl rfl
  | view _ _ _ _ => exact h.goIdle rfl rfl rfl
  | @begin c req _ =>
    cases hg : req.command.groupId with
    | some g => exact h.goIdle rfl rfl rfl
    | none =>
      refine h.go ⟨?_, fun _ => hg, ?_, ?_, ?_, ?_⟩
      · exact fun r hr => by cases hr
      · exact fun g p hp => by cases hp
      · exact fun _ g hg' => by rw [hg] at hg'; cases hg'
      · exact fun g p hp => by cases hp
      · exact fun g p hp => by cases hp
  | lockMissing _ _ _ => exact h.goIdle rfl rfl rfl
  | @lock c req g r _ hg hr _ hfree =>
    refine h.go ⟨fun r' hr' => ⟨g, hg, ?_⟩, ?_, ?_, ?_, ?_, ?_⟩
    · cases hr'
      exact hr
    · exact fun hw => by cases hw
    · exact fun g p hp => by cases hp
    · grind
    · exact fun g p hp => by cases hp
    · exact fun g p hp => by cases hp
  | checkFound _ _ => exact h.goIdle rfl rfl rfl
  | @checkNone c req r hcall _ =>
    have hc := h.okay c req _ hcall
    refine h.go ⟨fun r' hr' => hc.read r' hr', ?_, ?_, fun _ => hc.exclusive rfl, ?_, ?_⟩
    · exact fun hw => by cases hw
    · exact fun g p hp => by cases hp
    · exact fun g p hp => by cases hp
    · exact fun g p hp => by cases hp
  | reject _ _ => exact h.goIdle rfl rfl rfl
  | @create c req e p hcall hwork =>
    have hg := (h.okay c req _ hcall).created rfl
    have hnone : s.db.groups s.db.nextGroup = none := by
      by_contra hsome
      exact absurd (h.ids _ hsome) (lt_irrefl _)
    refine h.skip.go ⟨?_, ?_, ?_, ?_, ?_, ?_⟩
    · exact fun r hr => by cases hr
    · exact fun hw => by cases hw
    · intro g p' hp
      cases hp
      refine ⟨⟨e, ?_⟩, .inr ⟨hg, hnone, Nat.lt_succ_self _⟩⟩
      exact (congrArg _ hnone).trans hwork
    · exact fun _ g hg' => by rw [hg] at hg'; cases hg'
    · intro g p' hp _ c' req' phase' p'' _ hcall' hp'' hnone'
      cases hp
      obtain ⟨-, ⟨hsome, -⟩ | ⟨-, -, hlt⟩⟩ := (h.okay c' req' phase' hcall').prepared _ _ hp''
      · simp_all
      · exact absurd hlt (lt_irrefl _)
    · exact fun g p hp => by cases hp
  | @change c req g r e p hcall hg hwork =>
    have hc := h.okay c req _ hcall
    obtain ⟨g', hg', hr⟩ := hc.read r rfl
    obtain rfl : g = g' := Option.some.inj (hg.symm.trans hg')
    refine h.go ⟨?_, ?_, ?_, fun _ => hc.exclusive rfl, ?_, ?_⟩
    · exact fun r hr => by cases hr
    · exact fun hw => by cases hw
    · intro g' p' hp
      cases hp
      refine ⟨⟨e, ?_⟩, .inl ⟨hg, by rw [hr]; simp⟩⟩
      rw [hr, ← hwork]
      exact transact_fresh (by rw [hg]; simp)
    · intro _ _ _ hnone
      rw [hg] at hnone
      cases hnone
    · exact fun g p hp => by cases hp
  | insertOutbox hcall _ => exact h.goPrepared hcall rfl rfl rfl (fun _ _ hp => by cases hp)
  | insertOperation hcall hnone hfree =>
    refine h.goPrepared hcall rfl rfl rfl fun _ _ hp => ⟨hnone, ?_⟩
    exact fun c' req' g' p' _ hcall' => hfree c' req' g' p' hcall'
  | insertOperationFailed _ _ => exact h.goIdle rfl rfl rfl
  | commit hcall => exact h.commit hcall rfl rfl rfl
  | commitLost hcall => exact h.commit hcall rfl rfl rfl
  | commitFailed _ => exact h.goIdle rfl rfl rfl
  | applied _ _ => exact h.goIdle rfl rfl rfl

theorem run {ls : List Label} (hrun : Run (Step sha256 collate) .initial ls s) : Held collate s :=
  hrun.invariant (I := Held collate) (fun _ _ _ h hs => h.step hs) .init

end Held

/-! ## Effects -/

structure Effective (s : State δ κ) (c : ℕ) (req : Request) (g : ℕ) (p : Prepared) : Prop where
  call : s.calls c = some ⟨req, .commit g p⟩
  work : ∃ e, req.transact e g (s.db.groups g) = .ok p
  group : req.command.groupId = some g ∧ s.db.groups g ≠ none ∨
    req.command.groupId = none ∧ s.db.groups g = none

theorem step_effect [DecidableEq κ] (h : Held collate s) (hs : Step sha256 collate s l s') :
    (s'.db.groups = s.db.groups ∧ s'.db.operations = s.db.operations ∧
      s'.db.outbox = s.db.outbox ∧ ∀ c lost, l ≠ .effect c lost) ∨
    ∃ c lost req g p, l = .effect c lost ∧ Effective s c req g p ∧
      s'.db = s.db.commit sha256 collate req g p ∧ s.db.find collate req = none := by
  have hcommit : ∀ {c : ℕ} {req : Request} {g : ℕ} {p : Prepared},
      s.calls c = some ⟨req, .commit g p⟩ → Effective s c req g p := fun {c req g p} hcall => by
    obtain ⟨hwork, hgroup⟩ := (h.okay c req _ hcall).prepared g p rfl
    exact ⟨hcall, hwork, hgroup.imp id fun hnone => ⟨hnone.1, hnone.2.1⟩⟩
  cases hs with
  | @commit c req g p hcall =>
    exact .inr ⟨c, false, req, g, p, rfl, hcommit hcall, rfl,
      ((h.okay c req _ hcall).key g p rfl).1⟩
  | @commitLost c req g p error hcall =>
    exact .inr ⟨c, true, req, g, p, rfl, hcommit hcall, rfl,
      ((h.okay c req _ hcall).key g p rfl).1⟩
  | _ => exact .inl ⟨rfl, rfl, rfl, fun _ _ hl => by cases hl⟩

/-! ## Requests in flight -/

def Phase.ended : Phase → Bool
  | .returned _ => true
  | _ => false

def Valid (s : State δ κ) : Prop :=
  ∀ c req phase, s.calls c = some ⟨req, phase⟩ → phase.ended = false → req.valid = .ok ()

theorem Valid.go {phase' : Phase} (h : Valid s) (hcall : s.calls c = some ⟨req, phase⟩)
    (hended : phase.ended = false) : Valid (s.go c req phase') := by
  intro c' req' phase'' hcall' hended'
  by_cases heq : c' = c
  · subst heq
    simp only [State.go_calls_self, Option.some.injEq, Call.mk.injEq] at hcall'
    exact hcall'.1 ▸ h c' req phase hcall hended
  · rw [State.go_calls_ne heq] at hcall'
    exact h c' req' phase'' hcall' hended'

theorem Valid.step [DecidableEq κ] (h : Valid s) (hs : Step sha256 collate s l s') : Valid s' := by
  cases hs with
  | @arrive c req _ hvalid =>
    intro c' req' phase' hcall' hended'
    by_cases heq : c' = c
    · subst heq
      simp only [State.go_calls_self, Option.some.injEq, Call.mk.injEq] at hcall'
      exact hcall'.1 ▸ hvalid
    · rw [State.go_calls_ne heq] at hcall'
      exact h c' req' phase' hcall' hended'
  | @refuse c req f _ _ =>
    intro c' req' phase' hcall' hended'
    by_cases heq : c' = c
    · subst heq
      simp only [State.go_calls_self, Option.some.injEq, Call.mk.injEq] at hcall'
      rw [← hcall'.2] at hended'
      cases hended'
    · rw [State.go_calls_ne heq] at hcall'
      exact h c' req' phase' hcall' hended'
  | skipId => exact h
  | @fault c req phase recovery f hcall hfaults _ =>
    refine h.go hcall ?_
    cases phase <;> first | rfl | cases hfaults
  | precheckFound hcall _ => exact h.go hcall rfl
  | precheckNone hcall _ _ _ => exact h.go hcall rfl
  | resolveMissing hcall _ => exact h.go hcall rfl
  | resolveConflict hcall _ _ _ => exact h.go hcall rfl
  | resolveMatch hcall _ _ => exact h.go hcall rfl
  | viewMissing hcall _ _ => exact h.go hcall rfl
  | view hcall _ _ _ => exact h.go hcall rfl
  | begin hcall => exact h.go hcall rfl
  | lockMissing hcall _ _ => exact h.go hcall rfl
  | lock hcall _ _ _ _ => exact h.go hcall rfl
  | checkFound hcall _ => exact h.go hcall rfl
  | checkNone hcall _ => exact h.go hcall rfl
  | reject hcall _ => exact h.go hcall rfl
  | create hcall _ => exact h.go hcall rfl
  | change hcall _ _ => exact h.go hcall rfl
  | insertOutbox hcall _ => exact h.go hcall rfl
  | insertOperation hcall _ _ => exact h.go hcall rfl
  | insertOperationFailed hcall _ => exact h.go hcall rfl
  | commit hcall => exact h.go hcall rfl
  | commitLost hcall => exact h.go hcall rfl
  | commitFailed hcall => exact h.go hcall rfl
  | applied hcall _ => exact h.go hcall rfl

theorem Valid.run [DecidableEq κ] {ls : List Label}
    (hrun : Run (Step sha256 collate) .initial ls s) : Valid s :=
  hrun.invariant (I := Valid) (fun _ _ _ h hs => h.step hs) fun _ _ _ hcall => by cases hcall

end TinyImx.Group
