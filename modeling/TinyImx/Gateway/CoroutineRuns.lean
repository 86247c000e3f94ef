import Mathlib.Data.Multiset.Bind
import TinyImx.Gateway.Coroutine

/-!
# Every request is resumed once

Until the runner has finished, the handle that the frame is suspended at is in one place: its
`Request` has not been made, is under way, is in `ready_`, or is in the hands of the one call of
`Run`.  So a resume always finds the frame suspended at its handle, and the runner always has
somebody left who goes on, unless the job of the last `Request` was not accepted.
-/

namespace TinyImx.Gateway.BusinessCoroutine

open Multiset (add_cons card card_add card_cons card_eq_zero card_zero coe_add cons_add cons_bind
  cons_ne_zero mem_cons mem_cons_of_mem mem_cons_self singleton_inj zero_bind)

variable {η ε : Type} {s s' : State η ε} {l : Label η ε} {ls : List (Label η ε)} {root : η}

/-! ## Where the handle is -/

def State.outstanding (s : State η ε) : Multiset η :=
  s.open_ + s.requests + s.ready.elim 0 ({·})

def Waits (out : Multiset η) : Frame η ε → Prop
  | .suspended h => out = {h}
  | .executing => out = 0
  | .final _ => out = 0
  | .destroyed => False

def Fits (frame : Frame η ε) (out : Multiset η) : Pc η ε → Prop
  | .enter x => ∃ h, x = some h ∧ frame = .suspended h ∧ out = 0
  | .resuming => Waits out frame
  | .resumed => Waits out frame ∧ frame ≠ .executing
  | .after none => Waits out frame ∧ frame ≠ .executing
  | .after (some _) => frame ≠ .executing ∧ frame ≠ .destroyed ∧ out.card ≤ 1
  | .finishing _ => frame ≠ .executing ∧ frame ≠ .destroyed ∧ out.card ≤ 1
  | .check => ∃ h, frame = .suspended h ∧ out = {h}
  | .locked _ => False
  | .released _ => False

/-- One call of `Run` is under way. -/
structure Active (s : State η ε) (pc : Pc η ε) : Prop where
  finished : s.finished = false
  running : s.running = true
  scheduled : s.scheduled = false
  posting : s.posting = 0
  jobs : s.jobs = 0
  runs : s.runs = {pc}
  root : s.root = true
  keepalive : s.keepalive = true
  deleted : s.deleted = false
  fits : Fits s.frame s.outstanding pc

structure Waiting (s : State η ε) (h : η) : Prop where
  finished : s.finished = false
  running : s.running = false
  runs : s.runs = 0
  root : s.root = true
  keepalive : s.keepalive = true
  deleted : s.deleted = false
  frame : s.frame = .suspended h
  outstanding : s.outstanding = {h}
  scheduled : s.scheduled = s.ready.isSome
  jobs : s.posting + s.jobs ≤ s.scheduled.toNat

structure Over (s : State η ε) : Prop where
  finished : s.finished = true
  scheduled : s.scheduled = false
  ready : s.ready = none
  posting : s.posting = 0
  jobs : s.jobs = 0
  runs : (∃ e, s.runs = {.locked e} ∧ s.root = true ∧ s.keepalive = true ∧ s.deleted = false ∧
      s.frame ≠ .executing ∧ s.frame ≠ .destroyed) ∨
    (∃ e, s.runs = {.released e} ∧ s.root = false ∧ s.keepalive = false ∧ s.frame = .destroyed) ∨
    s.runs = 0 ∧ s.root = false ∧ s.keepalive = false ∧ s.frame = .destroyed

inductive Shape (s : State η ε) : Prop
  | active {pc : Pc η ε} : Active s pc → Shape s
  | waiting {h : η} : Waiting s h → Shape s
  | ended : Over s → Shape s

variable {out : Multiset η} {frame : Frame η ε}

theorem Waits.suspended (h : Waits out frame)
    (hexec : frame ≠ .executing) (hfinal : frame.isFinal = false) :
    ∃ h, frame = .suspended h ∧ out = {h} := by
  cases frame with
  | suspended handle => exact ⟨handle, rfl, h⟩
  | executing => exact absurd rfl hexec
  | final => cases hfinal
  | destroyed => exact h.elim

theorem Waits.ne_destroyed (h : Waits out frame) : frame ≠ .destroyed := by
  rintro rfl
  exact h

theorem Waits.card_le (h : Waits out frame) : out.card ≤ 1 := by
  cases frame with
  | suspended => exact (congrArg card h).le
  | executing => exact (congrArg card h).trans_le (Nat.zero_le 1)
  | final => exact (congrArg card h).trans_le (Nat.zero_le 1)
  | destroyed => exact h.elim

variable {pc : Pc η ε}

theorem Fits.card_le (h : Fits frame out pc) : out.card ≤ 1 := by
  cases pc with
  | enter =>
    obtain ⟨-, -, -, rfl⟩ := h
    exact Nat.zero_le 1
  | resuming => exact Waits.card_le h
  | resumed => exact h.1.card_le
  | after error =>
    cases error with
    | none => exact h.1.card_le
    | some => exact h.2.2
  | finishing => exact h.2.2
  | check =>
    obtain ⟨-, -, rfl⟩ := h
    exact le_rfl
  | locked => exact h.elim
  | released => exact h.elim

theorem Fits.ne_destroyed (h : Fits frame out pc) : frame ≠ .destroyed := by
  cases pc with
  | enter =>
    obtain ⟨x, -, rfl, -⟩ := h
    nofun
  | resuming => exact Waits.ne_destroyed h
  | resumed => exact h.1.ne_destroyed
  | after error =>
    cases error with
    | none => exact h.1.ne_destroyed
    | some => exact h.2.1
  | finishing => exact h.2.1
  | check =>
    obtain ⟨x, rfl, -⟩ := h
    nofun
  | locked => exact h.elim
  | released => exact h.elim

theorem outstanding_zero (h : s.outstanding = 0) :
    s.open_ = 0 ∧ s.requests = 0 ∧ s.ready = none := by
  have hcard := congrArg card h
  simp only [State.outstanding, card_add, card_zero] at hcard
  refine ⟨card_eq_zero.1 (by omega), card_eq_zero.1 (by omega), ?_⟩
  cases hready : s.ready with
  | none => rfl
  | some x =>
    simp_all

theorem outstanding_ready {h : η} (hready : s.ready = some h) (hcard : s.outstanding.card ≤ 1) :
    s.open_ = 0 ∧ s.requests = 0 ∧ s.outstanding = {h} := by
  simp only [State.outstanding, hready, Option.elim_some, card_add,
    Multiset.card_singleton] at hcard
  have hopen : s.open_ = 0 := card_eq_zero.1 (by omega)
  have hrequests : s.requests = 0 := card_eq_zero.1 (by omega)
  refine ⟨hopen, hrequests, ?_⟩
  simp [State.outstanding, hready, hopen, hrequests]

theorem Active.goOn {pc p : Pc η ε} {frame : Frame η ε} {ready : Option η} {open_ : Multiset η}
    (h : Active s pc)
    (hfits : Fits frame (open_ + s.requests + ready.elim 0 ({·})) p) :
    Shape { s with frame := frame, runs := {p}, ready := ready, open_ := open_ } :=
  .active ⟨h.finished, h.running, h.scheduled, h.posting, h.jobs, rfl, h.root, h.keepalive, h.deleted,
    hfits⟩

variable {others : Multiset η}

theorem outstanding_call {h : η} (ho : s.open_ = h ::ₘ others) :
    { s with open_ := others, requests := h ::ₘ s.requests }.outstanding = s.outstanding := by
  simp only [State.outstanding, ho, cons_add, add_cons]

theorem outstanding_request {h : η} (hr : s.requests = h ::ₘ others) (hready : s.ready = none) :
    { s with requests := others, ready := some h }.outstanding = s.outstanding := by
  simp only [State.outstanding, hr, hready, Option.elim_none, Option.elim_some, add_cons,
    add_zero]
  rw [← Multiset.singleton_add, add_comm]

variable {rest : Multiset (Pc η ε)}

namespace Shape

theorem init : Shape (State.initial root : State η ε) := by
  refine .active ⟨rfl, rfl, rfl, rfl, rfl, rfl, rfl, rfl, rfl, ?_⟩
  exact ⟨root, rfl, rfl, rfl⟩

theorem of_runs (h : Shape s) (hr : s.runs = pc ::ₘ rest) : rest = 0 ∧
      (Active s pc ∨ Over s ∧ ((∃ e, pc = .locked e) ∨ ∃ e, pc = .released e)) := by
  have hone : ∀ pc', s.runs = {pc'} → pc = pc' ∧ rest = 0 := fun pc' hpc' => by
    simp_all
  cases h with
  | active ha =>
    obtain ⟨rfl, hrest⟩ := hone _ ha.runs
    exact ⟨hrest, .inl ha⟩
  | waiting hw =>
    rw [hw.runs] at hr
    exact absurd hr.symm (cons_ne_zero)
  | ended ho =>
    rcases ho.runs with ⟨e, hruns, -⟩ | ⟨e, hruns, -⟩ | ⟨hruns, -⟩
    · simp_all
    · simp_all
    · rw [hruns] at hr
      exact absurd hr.symm (cons_ne_zero)

theorem active_of_runs (h : Shape s)
    (hr : s.runs = pc ::ₘ rest) (hlocked : ∀ e, pc ≠ .locked e) (hreleased : ∀ e, pc ≠ .released e) :
    rest = 0 ∧ Active s pc := by
  obtain ⟨hrest, ha | ⟨-, ⟨e, he⟩ | ⟨e, he⟩⟩⟩ := h.of_runs hr
  · exact ⟨hrest, ha⟩
  · exact absurd he (hlocked e)
  · exact absurd he (hreleased e)

theorem over_of_runs (h : Shape s)
    (hr : s.runs = pc ::ₘ rest) (hpc : (∃ e, pc = .locked e) ∨ ∃ e, pc = .released e) :
    Over s := by
  obtain ⟨-, ha | ⟨ho, -⟩⟩ := h.of_runs hr
  · rcases hpc with ⟨e, rfl⟩ | ⟨e, rfl⟩
    · exact ha.fits.elim
    · exact ha.fits.elim
  · exact ho

theorem of_not_owned (h : Shape s) (hn : ¬ s.owned) : Over s := by
  cases h with
  | active ha => exact absurd (.inl ha.keepalive) hn
  | waiting hw => exact absurd (.inl hw.keepalive) hn
  | ended ho => exact ho

theorem of_finished (h : Shape s) (hf : s.finished = true) : Over s := by
  cases h with
  | active ha =>
    rw [ha.finished] at hf
    cases hf
  | waiting hw =>
    rw [hw.finished] at hf
    cases hf
  | ended ho => exact ho

theorem of_not_finished (h : Shape s) (hf : s.finished = false) :
    (∃ pc, Active s pc) ∨ ∃ h, Waiting s h := by
  cases h with
  | active ha => exact .inl ⟨_, ha⟩
  | waiting hw => exact .inr ⟨_, hw⟩
  | ended ho =>
    rw [ho.finished] at hf
    cases hf

theorem of_job (h : Shape s) (hj : 0 < s.posting ∨ 0 < s.jobs) : ∃ h, Waiting s h := by
  cases h with
  | active ha =>
    have := ha.posting
    have := ha.jobs
    omega
  | waiting hw => exact ⟨_, hw⟩
  | ended ho =>
    have := ho.posting
    have := ho.jobs
    omega

theorem not_multiple {h' : η} (h : Shape s) (hr : s.requests = h' ::ₘ others)
    (hf : s.finished = false) (hready : s.ready ≠ none) : False := by
  obtain ⟨x, hx⟩ := Option.ne_none_iff_exists'.1 hready
  have hcard : s.outstanding.card ≤ 1 := by
    rcases h.of_not_finished hf with ⟨pc, ha⟩ | ⟨h, hw⟩
    · exact ha.fits.card_le
    · exact (congrArg card hw.outstanding).le
  obtain ⟨-, hnone, -⟩ := outstanding_ready hx hcard
  simp_all

theorem step (h : Shape s) (hs : Step s l s') : Shape s' := by
  cases hs with
  | @resume rest x hr =>
    obtain ⟨rfl, ha⟩ := h.active_of_runs hr nofun nofun
    obtain ⟨h, rfl, hframe, hout⟩ := ha.fits
    exact ha.goOn hout
  | @throwBefore rest x e hr =>
    obtain ⟨rfl, ha⟩ := h.active_of_runs hr nofun nofun
    obtain ⟨h, rfl, hframe, hout⟩ := ha.fits
    refine ha.goOn ⟨?_, ?_, ?_⟩
    · rw [hframe]
      nofun
    · rw [hframe]
      nofun
    · exact (congrArg card hout).trans_le (Nat.zero_le 1)
  | @suspend rest h' hr hframe =>
    obtain ⟨rfl, ha⟩ := h.active_of_runs hr nofun nofun
    have hout : Waits s.outstanding s.frame := ha.fits
    rw [hframe] at hout
    refine hr ▸ ha.goOn (p := .resuming) ?_
    show _ = {h'}
    rw [cons_add, cons_add]
    exact congrArg (h' ::ₘ ·) hout
  | @complete rest e hr hframe =>
    obtain ⟨rfl, ha⟩ := h.active_of_runs hr nofun nofun
    have hout : Waits s.outstanding s.frame := ha.fits
    rw [hframe] at hout
    exact hr ▸ ha.goOn (p := .resuming) hout
  | @leave rest hr hframe =>
    obtain ⟨rfl, ha⟩ := h.active_of_runs hr nofun nofun
    exact ha.goOn ⟨ha.fits, hframe⟩
  | @returnAround rest hr =>
    obtain ⟨rfl, ha⟩ := h.active_of_runs hr nofun nofun
    exact ha.goOn ha.fits
  | @throwAfter rest e hr =>
    obtain ⟨rfl, ha⟩ := h.active_of_runs hr nofun nofun
    exact ha.goOn ⟨ha.fits.2, ha.fits.1.ne_destroyed, ha.fits.1.card_le⟩
  | @failed rest e hr =>
    obtain ⟨rfl, ha⟩ := h.active_of_runs hr nofun nofun
    exact ha.goOn ha.fits
  | @ended rest hr hfinal =>
    obtain ⟨rfl, ha⟩ := h.active_of_runs hr nofun nofun
    exact ha.goOn ⟨ha.fits.2, ha.fits.1.ne_destroyed, ha.fits.1.card_le⟩
  | @finish rest e hr =>
    obtain ⟨rfl, ha⟩ := h.active_of_runs hr nofun nofun
    exact .ended ⟨rfl, ha.scheduled, rfl, ha.posting, ha.jobs,
      .inl ⟨e, rfl, ha.root, ha.keepalive, ha.deleted, ha.fits.1, ha.fits.2.1⟩⟩
  | @destroy rest e hr =>
    obtain ⟨rfl, ha | ⟨ho, -⟩⟩ := h.of_runs hr
    · exact ha.fits.elim
    · exact .ended ⟨ho.finished, ho.scheduled, ho.ready, ho.posting, ho.jobs,
        .inr (.inl ⟨e, rfl, rfl, rfl, rfl⟩)⟩
  | @done rest e hr =>
    obtain ⟨rfl, ha | ⟨ho, -⟩⟩ := h.of_runs hr
    · exact ha.fits.elim
    · refine .ended ⟨ho.finished, ho.scheduled, ho.ready, ho.posting, ho.jobs, .inr (.inr ⟨rfl, ?_⟩)⟩
      rcases ho.runs with ⟨e', hruns, -⟩ | ⟨e', hruns, hrest⟩ | ⟨hruns, -⟩
      · simp_all
      · exact hrest
      · simp_all
  | @goOn rest hr hfinal =>
    obtain ⟨rfl, ha⟩ := h.active_of_runs hr nofun nofun
    exact ha.goOn (ha.fits.1.suspended ha.fits.2 hfinal)
  | @again rest h' hr hready =>
    obtain ⟨rfl, ha⟩ := h.active_of_runs hr nofun nofun
    obtain ⟨h, hframe, hout⟩ := ha.fits
    obtain ⟨hopen, hrequests, hout'⟩ := outstanding_ready hready ha.fits.card_le
    obtain rfl := singleton_inj.1 (hout.symm.trans hout')
    refine ha.goOn ⟨h, rfl, hframe, ?_⟩
    simp [hopen, hrequests]
  | @rest rest hr hready =>
    obtain ⟨rfl, ha⟩ := h.active_of_runs hr nofun nofun
    obtain ⟨h, hframe, hout⟩ := ha.fits
    refine .waiting (h := h) ⟨ha.finished, rfl, rfl, ha.root, ha.keepalive, ha.deleted, hframe, hout,
      ?_, ?_⟩
    · exact ha.scheduled.trans (by rw [hready]; rfl)
    · show s.posting + s.jobs ≤ s.scheduled.toNat
      rw [ha.posting, ha.jobs]
      exact Nat.zero_le _
  | @call others h' ho _ =>
    have hsame := outstanding_call ho
    cases h with
    | active ha =>
      exact .active ⟨ha.finished, ha.running, ha.scheduled, ha.posting, ha.jobs, ha.runs, ha.root,
        ha.keepalive, ha.deleted, hsame ▸ ha.fits⟩
    | waiting hw =>
      exact .waiting ⟨hw.finished, hw.running, hw.runs, hw.root, hw.keepalive, hw.deleted, hw.frame,
        hsame.trans hw.outstanding, hw.scheduled, hw.jobs⟩
    | ended hover =>
      exact .ended ⟨hover.finished, hover.scheduled, hover.ready, hover.posting, hover.jobs,
        hover.runs⟩
  | @callGone others h' ho hn =>
    have hover := h.of_not_owned hn
    exact .ended ⟨hover.finished, hover.scheduled, hover.ready, hover.posting, hover.jobs, hover.runs⟩
  | @requestLate others h' _ hfinished =>
    have hover := h.of_finished hfinished
    exact .ended ⟨hover.finished, hover.scheduled, hover.ready, hover.posting, hover.jobs, hover.runs⟩
  | requestMultiple hr hfinished hready => exact (h.not_multiple hr hfinished hready).elim
  | @request others h' hr hfinished hready hbusy =>
    have hsame := outstanding_request hr hready
    rcases h.of_not_finished hfinished with ⟨pc, ha⟩ | ⟨h, hw⟩
    · exact .active ⟨ha.finished, ha.running, ha.scheduled, ha.posting, ha.jobs, ha.runs, ha.root,
        ha.keepalive, ha.deleted, hsame ▸ ha.fits⟩
    · rw [hw.running, hw.scheduled, hready] at hbusy
      cases hbusy
  | @requestSchedule others h' hr hfinished hready hidle =>
    have hsame := outstanding_request hr hready
    obtain ⟨hrunning, hscheduled⟩ := Bool.or_eq_false_iff.1 hidle
    rcases h.of_not_finished hfinished with ⟨pc, ha⟩ | ⟨h, hw⟩
    · rw [ha.running] at hrunning
      cases hrunning
    · have hjobs := hw.jobs
      rw [hscheduled, Bool.toNat_false] at hjobs
      refine .waiting (h := h) ⟨hw.finished, hw.running, hw.runs, hw.root, hw.keepalive, hw.deleted,
        hw.frame, hsame.trans hw.outstanding, rfl, ?_⟩
      simp_all
  | @post n hn =>
    obtain ⟨h, hw⟩ := h.of_job (.inl (by omega))
    have hjobs := hw.jobs
    refine .waiting (h := h) ⟨hw.finished, hw.running, hw.runs, hw.root, hw.keepalive, hw.deleted,
      hw.frame, hw.outstanding, hw.scheduled, ?_⟩
    grind
  | @postThrow n hn =>
    obtain ⟨h, hw⟩ := h.of_job (.inl (by omega))
    have hjobs := hw.jobs
    refine .waiting (h := h) ⟨hw.finished, hw.running, hw.runs, hw.root, hw.keepalive, hw.deleted,
      hw.frame, hw.outstanding, hw.scheduled, ?_⟩
    show n + s.jobs ≤ s.scheduled.toNat
    omega
  | @job n hn =>
    obtain ⟨h, hw⟩ := h.of_job (.inr (by omega))
    have hjobs := hw.jobs
    have hle : s.scheduled.toNat ≤ 1 := Bool.toNat_le _
    obtain ⟨h', hready⟩ : ∃ h', s.ready = some h' := by
      rw [← Option.isSome_iff_exists, ← hw.scheduled]
      cases hsched : s.scheduled with
      | true => rfl
      | false =>
        simp_all
    obtain ⟨hopen, hrequests, hout⟩ := outstanding_ready hready
      ((congrArg card hw.outstanding).le)
    obtain rfl := singleton_inj.1 (hw.outstanding.symm.trans hout)
    refine @Shape.active _ _ _ (.enter (some h)) ⟨hw.finished, rfl, rfl, ?_, ?_, ?_, hw.root,
      hw.keepalive, hw.deleted, h, rfl, hw.frame, ?_⟩
    · show s.posting = 0
      omega
    · show n = 0
      omega
    · show .enter s.ready ::ₘ s.runs = _
      rw [hready, hw.runs]
      rfl
    · simp [State.outstanding, hopen, hrequests]
  | delete hn _ _ =>
    have hover := h.of_not_owned hn
    refine .ended ⟨hover.finished, hover.scheduled, hover.ready, hover.posting, hover.jobs, ?_⟩
    rcases hover.runs with ⟨e, -, -, hkeep, -⟩ | hrest
    · exact absurd (.inl hkeep) hn
    · exact .inr hrest
  | deleteRoot hn _ hroot =>
    have hover := h.of_not_owned hn
    rcases hover.runs with ⟨e, -, -, hkeep, -⟩ | ⟨e, -, hnone, -⟩ | ⟨-, hnone, -⟩
    · exact absurd (.inl hkeep) hn
    · rw [hroot] at hnone
      cases hnone
    · rw [hroot] at hnone
      cases hnone

end Shape

/-! ## Histories -/

def resumed (ls : List (Label η ε)) : List η :=
  ls.filterMap fun
    | .resume h _ => h
    | _ => none

def requested (ls : List (Label η ε)) : List η :=
  ls.filterMap fun
    | .request h => some h
    | _ => none

def dones (ls : List (Label η ε)) : List (Option ε) :=
  ls.filterMap fun
    | .done e => some e
    | _ => none

def destroys (ls : List (Label η ε)) : ℕ :=
  ls.countP fun
    | .destroy => true
    | _ => false

def throws (ls : List (Label η ε)) : ℕ :=
  ls.countP fun
    | .postThrew => true
    | _ => false

def suspensions (ls : List (Label η ε)) : ℕ :=
  ls.countP fun
    | .suspend _ => true
    | _ => false

def Pc.handle : Pc η ε → Multiset η
  | .enter (some h) => {h}
  | _ => 0

def State.inHand (s : State η ε) : Multiset η :=
  s.ready.elim 0 ({·}) + s.runs.bind Pc.handle

/-- What may happen: a resume finds the frame suspended at its handle, and no `Request` throws. -/
def Label.Fine : Label η ε → Prop
  | .resume x frame => ∃ h, x = some h ∧ frame = .suspended h
  | .multiple _ => False
  | _ => True

theorem Shape.fine (h : Shape s) (hs : Step s l s') : l.Fine := by
  cases hs with
  | resume hr =>
    obtain ⟨-, ha⟩ := h.active_of_runs hr nofun nofun
    obtain ⟨h, rfl, hframe, -⟩ := ha.fits
    exact ⟨h, rfl, hframe⟩
  | requestMultiple hr hfinished hready => exact h.not_multiple hr hfinished hready
  | _ => trivial

theorem fine_run (hrun : Run Step (State.initial root) ls s) : ∀ l ∈ ls, l.Fine := by
  have hall := hrun.history (I := fun ls s => Shape s ∧ ∀ l ∈ ls, l.Fine)
    (fun ls s l s' h hs => ⟨h.1.step hs, fun l' hl' => by
      rcases List.mem_append.1 hl' with hl' | hl'
      · exact h.2 l' hl'
      · exact List.mem_singleton.1 hl' ▸ h.1.fine hs⟩)
    ⟨.init, fun _ hl => by cases hl⟩
  exact hall.2

/-! ## The end of the frame -/

theorem destroys_step (h : Shape s) (hd : destroys ls = (!s.root).toNat) (hs : Step s l s') :
    destroys (ls ++ [l]) = (!s'.root).toNat := by
  simp only [destroys, List.countP_append] at hd ⊢
  rw [hd]
  cases hs with
  | @destroy rest e hr =>
    obtain ⟨rfl, ha | ⟨ho, -⟩⟩ := h.of_runs hr
    · exact ha.fits.elim
    · rcases ho.runs with ⟨e', -, hroot, -⟩ | ⟨e', hruns, -⟩ | ⟨hruns, -⟩
      · simp [hroot]
      · simp_all
      · simp_all
  | deleteRoot hn _ hroot =>
    rcases (h.of_not_owned hn).runs with ⟨e, -, -, hkeep, -⟩ | ⟨e, -, hnone, -⟩ | ⟨-, hnone, -⟩
    · exact absurd (.inl hkeep) hn
    · rw [hroot] at hnone
      cases hnone
    · rw [hroot] at hnone
      cases hnone
  | _ => simp

/-- Once the runner has finished, the call of `Run` that finished it is under way until it calls
`done`. -/
def DoneOnce (ls : List (Label η ε)) (s : State η ε) : Prop :=
  (s.finished = false → dones ls = []) ∧
    (s.finished = true → (dones ls).length + s.runs.card = 1)

theorem dones_append_of_ne (hl : ∀ e, l ≠ .done e) : dones (ls ++ [l]) = dones ls := by
  cases l with
  | done e => exact absurd rfl (hl e)
  | _ => simp [dones]

theorem doneOnce_step (h : Shape s) (hd : DoneOnce ls s) (hs : Step s l s') :
    DoneOnce (ls ++ [l]) s' := by
  -- a step that neither finishes the runner nor starts or ends a call of `Run` after that
  have hkeep : (∀ e, l ≠ .done e) → s'.finished = s.finished →
      (s.finished = true → s'.runs.card = s.runs.card) → DoneOnce (ls ++ [l]) s' :=
    fun hl hf hr => by
      rw [DoneOnce, dones_append_of_ne hl, hf]
      exact ⟨hd.1, fun hfin => (hr hfin).symm ▸ hd.2 hfin⟩
  cases hs with
  | resume hr => exact hkeep nofun rfl fun _ => by simp [hr]
  | throwBefore hr => exact hkeep nofun rfl fun _ => by simp [hr]
  | leave hr _ => exact hkeep nofun rfl fun _ => by simp [hr]
  | returnAround hr => exact hkeep nofun rfl fun _ => by simp [hr]
  | throwAfter hr => exact hkeep nofun rfl fun _ => by simp [hr]
  | failed hr => exact hkeep nofun rfl fun _ => by simp [hr]
  | ended hr _ => exact hkeep nofun rfl fun _ => by simp [hr]
  | destroy hr => exact hkeep nofun rfl fun _ => by simp [hr]
  | goOn hr _ => exact hkeep nofun rfl fun _ => by simp [hr]
  | again hr _ => exact hkeep nofun rfl fun _ => by simp [hr]
  | finish hr =>
    obtain ⟨rfl, ha⟩ := h.active_of_runs hr nofun nofun
    refine ⟨nofun, fun _ => ?_⟩
    rw [dones_append_of_ne (l := .silent) nofun, hd.1 ha.finished]
    rfl
  | @done rest e hr =>
    obtain ⟨rfl, ha | ⟨ho, -⟩⟩ := h.of_runs hr
    · exact ha.fits.elim
    · have hone := hd.2 ho.finished
      rw [hr, card_cons, card_zero] at hone
      refine ⟨fun hf => ?_, fun _ => ?_⟩
      · rw [show s.finished = true from ho.finished] at hf
        cases hf
      · show (dones (ls ++ [.done e])).length + 0 = 1
        simp only [dones, List.filterMap_append, List.length_append] at hone ⊢
        simp only [List.filterMap_cons, List.filterMap_nil, List.length_cons, List.length_nil]
        omega
  | rest hr _ =>
    obtain ⟨-, ha⟩ := h.active_of_runs hr nofun nofun
    refine hkeep nofun rfl fun hf => ?_
    rw [ha.finished] at hf
    cases hf
  | job hn =>
    obtain ⟨h, hw⟩ := h.of_job (.inr (by omega))
    refine hkeep nofun rfl fun hf => ?_
    rw [hw.finished] at hf
    cases hf
  | _ => exact hkeep nofun rfl fun _ => rfl

/-- While `scheduled_` is set, one job is there or about to be posted, or `post` threw. -/

theorem throws_step (ht : s.posting + s.jobs + throws ls = s.scheduled.toNat) (hs : Step s l s') :
    s'.posting + s'.jobs + throws (ls ++ [l]) = s'.scheduled.toNat := by
  have hle := Bool.toNat_le s.scheduled
  have happ : throws (ls ++ [l]) = throws ls + throws [l] := List.countP_append
  rw [happ]
  cases hs with
  | @requestSchedule _ h' _ _ _ hidle =>
    have hscheduled := (Bool.or_eq_false_iff.1 hidle).2
    rw [hscheduled, Bool.toNat_false] at ht
    show s.posting + 1 + s.jobs + (throws ls + 0) = 1
    omega
  | @post n hn =>
    show n + (s.jobs + 1) + (throws ls + 0) = s.scheduled.toNat
    omega
  | @postThrow n hn =>
    show n + s.jobs + (throws ls + 1) = s.scheduled.toNat
    omega
  | @job n hn =>
    show s.posting + n + (throws ls + 0) = 0
    omega
  | _ => exact ht

def Cause (ls : List (Label η ε)) (e : Option ε) : Prop :=
  .completed e ∈ ls ∨ ∃ x, e = some x ∧ .aroundThrew x ∈ ls

def Pc.Told (ls : List (Label η ε)) : Pc η ε → Prop
  | .after (some e) => .aroundThrew e ∈ ls
  | .finishing e | .locked e | .released e => Cause ls e
  | _ => True

structure Told (ls : List (Label η ε)) (s : State η ε) : Prop where
  runs : ∀ pc ∈ s.runs, pc.Told ls
  final : ∀ e, s.frame = .final e → .completed e ∈ ls
  dones : ∀ e, .done e ∈ ls → Cause ls e

theorem Cause.snoc {e : Option ε} (h : Cause ls e) : Cause (ls ++ [l]) e :=
  h.imp (List.mem_append_left _) fun ⟨x, hx, hmem⟩ => ⟨x, hx, List.mem_append_left _ hmem⟩

theorem Pc.Told.snoc {pc : Pc η ε} (h : pc.Told ls) : pc.Told (ls ++ [l]) := by
  cases pc with
  | after e =>
    cases e with
    | none => trivial
    | some => exact List.mem_append_left _ h
  | finishing => exact Cause.snoc h
  | locked => exact Cause.snoc h
  | released => exact Cause.snoc h
  | _ => trivial

namespace Told

theorem init : Told [] (State.initial root : State η ε) where
  runs pc h := by
    rw [Multiset.mem_singleton.1 h]
    trivial
  final _ h := by cases h
  dones _ h := by cases h

theorem keep (h : Told ls s) (hl : ∀ e, l ≠ .done e) (hruns : ∀ pc ∈ s'.runs, pc.Told (ls ++ [l]))
    (hfinal : ∀ e, s'.frame = .final e → s.frame = .final e ∨ l = .completed e) :
    Told (ls ++ [l]) s' where
  runs := hruns
  final e he := by
    rcases hfinal e he with hsame | rfl
    · exact List.mem_append_left _ (h.final e hsame)
    · exact List.mem_append_right _ (List.mem_singleton_self _)
  dones e he := by
    rcases List.mem_append.1 he with he | he
    · exact (h.dones e he).snoc
    · exact absurd (List.mem_singleton.1 he).symm (hl e)

theorem cons {pc pc' : Pc η ε} {rest : Multiset (Pc η ε)} (h : Told ls s)
    (hr : s.runs = pc' ::ₘ rest) (hpc : pc.Told (ls ++ [l])) :
    ∀ p ∈ pc ::ₘ rest, p.Told (ls ++ [l]) := by
  intro p hp
  rcases mem_cons.1 hp with rfl | hp
  · exact hpc
  · exact (h.runs p (by simp_all)).snoc

theorem mem (h : Told ls s)
    (hr : s.runs = pc ::ₘ rest) : pc.Told ls := h.runs pc (by rw [hr]; exact mem_cons_self _ _)

theorem step (h : Told ls s) (hs : Step s l s') : Told (ls ++ [l]) s' := by
  have hsame : ∀ pc ∈ s.runs, pc.Told (ls ++ [l]) := fun pc hpc => (h.runs pc hpc).snoc
  cases hs with
  | resume hr => exact h.keep nofun (h.cons hr trivial) nofun
  | throwBefore hr =>
    refine h.keep nofun (h.cons hr ?_) fun _ he => .inl he
    exact List.mem_append_right _ (List.mem_singleton_self _)
  | suspend hr hframe => exact h.keep nofun hsame nofun
  | @complete rest e hr hframe =>
    refine h.keep nofun hsame fun e' he => ?_
    cases he
    exact .inr rfl
  | leave hr _ => exact h.keep nofun (h.cons hr trivial) fun _ he => .inl he
  | returnAround hr => exact h.keep nofun (h.cons hr trivial) fun _ he => .inl he
  | throwAfter hr =>
    refine h.keep nofun (h.cons hr ?_) fun _ he => .inl he
    exact List.mem_append_right _ (List.mem_singleton_self _)
  | failed hr =>
    exact h.keep nofun (h.cons hr (Cause.snoc (.inr ⟨_, rfl, h.mem hr⟩))) fun _ he => .inl he
  | ended hr hfinal =>
    refine h.keep nofun (h.cons hr (Cause.snoc (.inl (h.final _ ?_)))) fun _ he => .inl he
    cases hframe : s.frame with
    | final => rfl
    | _ => simp [hframe, Frame.isFinal] at hfinal
  | finish hr => exact h.keep nofun (h.cons hr (Cause.snoc (h.mem hr))) fun _ he => .inl he
  | destroy hr => exact h.keep nofun (h.cons hr (Cause.snoc (h.mem hr))) nofun
  | @done rest e hr =>
    refine ⟨fun p hp => ?_, fun e' he => List.mem_append_left _ (h.final e' he), fun e' he => ?_⟩
    · exact (h.runs p (by simp_all)).snoc
    · rcases List.mem_append.1 he with he | he
      · exact (h.dones e' he).snoc
      · cases List.mem_singleton.1 he
        exact Cause.snoc (h.mem hr)
  | goOn hr _ => exact h.keep nofun (h.cons hr trivial) fun _ he => .inl he
  | again hr _ => exact h.keep nofun (h.cons hr trivial) fun _ he => .inl he
  | rest hr _ =>
    refine h.keep nofun (fun p hp => ?_) fun _ he => .inl he
    exact (h.runs p (by rw [hr]; exact mem_cons_of_mem hp)).snoc
  | job _ =>
    refine h.keep nofun (fun p hp => ?_) fun _ he => .inl he
    rcases mem_cons.1 hp with rfl | hp
    · trivial
    · exact hsame p hp
  | deleteRoot => exact h.keep nofun hsame nofun
  | _ => exact h.keep nofun hsame fun _ he => .inl he

end Told

/-! ## Requests and resumes -/

/-- The call of `Run` is about to finish the runner: the hook threw, or the frame is done. -/
def Pc.ends : Pc η ε → Bool
  | .after (some _) | .finishing _ => true
  | _ => false

/-- The requests are resumed in order, but for the last one that is `pending`. -/
structure Resumes (root : η) (ls : List (Label η ε)) (s : State η ε) (pending : List η) : Prop where
  order : resumed ls ++ pending = root :: requested ls
  length : pending.length ≤ 1
  room : s.finished = false → pending.length + s.open_.card + s.requests.card ≤ 1
  inHand : s.finished = false → (∀ pc ∈ s.runs, pc.ends = false) → (pending : Multiset η) = s.inHand

namespace Resumes

variable {pending : List η}

theorem init : Resumes root [] (State.initial root : State η ε) [root] where
  order := rfl
  length := le_rfl
  room _ := le_rfl
  inHand _ _ := by simp [State.initial, State.inHand, Pc.handle]

theorem keep (h : Resumes root ls s pending) (hresumed : resumed [l] = [])
    (hrequested : requested [l] = []) (hfinished : s'.finished = false → s.finished = false)
    (hroom : s'.finished = false → s'.open_.card + s'.requests.card ≤ s.open_.card + s.requests.card)
    (hhand : s'.finished = false → (∀ pc ∈ s'.runs, pc.ends = false) →
      (∀ pc ∈ s.runs, pc.ends = false) ∧ s'.inHand = s.inHand) :
    Resumes root (ls ++ [l]) s' pending where
  order := by
    have hr : resumed (ls ++ [l]) = resumed ls ++ resumed [l] := List.filterMap_append
    have hq : requested (ls ++ [l]) = requested ls ++ requested [l] := List.filterMap_append
    rw [hr, hq, hresumed, hrequested, List.append_nil, List.append_nil]
    exact h.order
  length := h.length
  room hf := by
    have := h.room (hfinished hf)
    have := hroom hf
    omega
  inHand hf hends := by
    obtain ⟨hends', hsame⟩ := hhand hf hends
    exact (h.inHand (hfinished hf) hends').trans hsame.symm

theorem ended (h : Resumes root ls s pending) (hresumed : resumed [l] = [])
    (hrequested : requested [l] = []) (hf : s'.finished = true) :
    Resumes root (ls ++ [l]) s' pending := by
  refine h.keep hresumed hrequested ?_ ?_ ?_
  all_goals
    grind

theorem move {pc' : Pc η ε} (h : Resumes root ls s pending)
    (hr : s.runs = pc ::ₘ rest) (hresumed : resumed [l] = []) (hrequested : requested [l] = [])
    (hpc : pc'.ends = false → pc.ends = false ∧ pc.handle = pc'.handle) :
    Resumes root (ls ++ [l]) { s with runs := pc' ::ₘ rest } pending := by
  refine h.keep hresumed hrequested id (fun _ => le_rfl) fun _ hends => ?_
  obtain ⟨hpc', hhandle⟩ := hpc (hends pc' (mem_cons_self _ _))
  refine ⟨fun p hp => ?_, ?_⟩
  · grind
  · simp only [State.inHand, hr, cons_bind, hhandle]

theorem store {x : η} {scheduled : Bool} {posting : ℕ}
    (h : Resumes root ls s pending) (hr : s.requests = x ::ₘ others) (hf : s.finished = false)
    (hready : s.ready = none) : Resumes root (ls ++ [.request x])
      { s with requests := others, ready := some x, scheduled := scheduled, posting := posting }
      (pending ++ [x]) := by
  have hroom := h.room hf
  rw [hr, card_cons] at hroom
  refine ⟨?_, ?_, fun _ => ?_, fun _ hends => ?_⟩
  · have hres : resumed (ls ++ [.request x]) = resumed ls := by simp [resumed]
    have hreq : requested (ls ++ [.request x]) = requested ls ++ [x] := by simp [requested]
    rw [hres, hreq, ← List.append_assoc, h.order, List.cons_append]
  · simp only [List.length_append, List.length_singleton]
    omega
  · show (pending ++ [x]).length + s.open_.card + others.card ≤ 1
    simp only [List.length_append, List.length_singleton]
    omega
  · have hhand := h.inHand hf hends
    simp only [State.inHand, hready, Option.elim_none, zero_add, Option.elim_some] at hhand ⊢
    rw [← coe_add, hhand, add_comm]
    rfl

theorem step (h : Resumes root ls s pending) (hshape : Shape s) (hs : Step s l s') :
    ∃ pending', Resumes root (ls ++ [l]) s' pending' := by
  cases hs with
  | @resume rest x hr =>
    obtain ⟨rfl, ha⟩ := hshape.active_of_runs hr nofun nofun
    obtain ⟨x, rfl, hframe, hout⟩ := ha.fits
    have hroom := h.room ha.finished
    obtain ⟨-, -, hready⟩ := outstanding_zero hout
    have hpending : pending = [x] := by
      have hhand := h.inHand ha.finished (by simp [hr, Pc.ends])
      simp only [State.inHand, hready, hr, Option.elim_none, zero_add, cons_bind,
        zero_bind, add_zero, Pc.handle] at hhand
      exact Multiset.coe_eq_singleton.1 hhand
    refine ⟨[], ?_, Nat.zero_le 1, fun hf => ?_, fun _ _ => ?_⟩
    · have horder := h.order
      rw [hpending] at horder
      simpa [resumed, requested] using horder
    · grind
    · simp [State.inHand, hready, Pc.handle]
  | throwBefore hr => exact ⟨pending, h.move hr rfl rfl nofun⟩
  | @suspend rest x hr hframe =>
    obtain ⟨rfl, ha⟩ := hshape.active_of_runs hr nofun nofun
    have hout : s.outstanding = 0 := by
      have hwaits : Waits s.outstanding s.frame := ha.fits
      rwa [hframe] at hwaits
    obtain ⟨hopen, hrequests, hready⟩ := outstanding_zero hout
    have hpending : pending = [] := by
      have hhand := h.inHand ha.finished (by simp [hr, Pc.ends])
      simp only [State.inHand, hready, hr, Option.elim_none, cons_bind, zero_bind,
        add_zero, Pc.handle] at hhand
      exact Multiset.coe_eq_zero _ |>.1 hhand
    subst hpending
    refine ⟨[], ?_, Nat.zero_le 1, fun hf => ?_, fun hf hends => h.inHand hf hends⟩
    · simpa [resumed, requested] using h.order
    · simp [hopen, hrequests]
  | complete hr _ => exact ⟨pending, h.keep rfl rfl id (fun _ => le_rfl) fun _ hends => ⟨hends, rfl⟩⟩
  | leave hr _ => exact ⟨pending, h.move hr rfl rfl fun _ => ⟨rfl, rfl⟩⟩
  | returnAround hr => exact ⟨pending, h.move hr rfl rfl fun _ => ⟨rfl, rfl⟩⟩
  | throwAfter hr => exact ⟨pending, h.move hr rfl rfl nofun⟩
  | failed hr => exact ⟨pending, h.move hr rfl rfl nofun⟩
  | ended hr _ => exact ⟨pending, h.move hr rfl rfl nofun⟩
  | finish hr => exact ⟨pending, h.keep rfl rfl nofun nofun nofun⟩
  | destroy hr =>
    have hover := hshape.over_of_runs hr (.inl ⟨_, rfl⟩)
    exact ⟨pending, h.ended rfl rfl hover.finished⟩
  | done hr =>
    have hover := hshape.over_of_runs hr (.inr ⟨_, rfl⟩)
    exact ⟨pending, h.ended rfl rfl hover.finished⟩
  | goOn hr _ => exact ⟨pending, h.move hr rfl rfl fun _ => ⟨rfl, rfl⟩⟩
  | @again rest x hr hready =>
    refine ⟨pending, h.keep rfl rfl id (fun _ => le_rfl) fun _ hends => ⟨fun p hp => ?_, ?_⟩⟩
    · rw [hr] at hp
      rcases mem_cons.1 hp with rfl | hp
      · rfl
      · exact hends p (mem_cons_of_mem hp)
    · simp [State.inHand, hr, hready, Pc.handle]
  | @rest rest hr _ =>
    refine ⟨pending, h.keep rfl rfl id (fun _ => le_rfl) fun _ hends => ⟨fun p hp => ?_, ?_⟩⟩
    · rw [hr] at hp
      rcases mem_cons.1 hp with rfl | hp
      · rfl
      · exact hends p hp
    · simp [State.inHand, hr, Pc.handle]
  | @call others x ho _ =>
    refine ⟨pending, h.keep rfl rfl id (fun _ => ?_) fun _ hends => ⟨hends, rfl⟩⟩
    simp only [ho, card_cons]
    omega
  | callGone ho hn => exact ⟨pending, h.ended rfl rfl (hshape.of_not_owned hn).finished⟩
  | requestLate _ hf => exact ⟨pending, h.ended rfl rfl hf⟩
  | requestMultiple hr hf hready => exact (hshape.not_multiple hr hf hready).elim
  | request hr hf hready _ => exact ⟨_, h.store hr hf hready⟩
  | requestSchedule hr hf hready _ => exact ⟨_, h.store hr hf hready⟩
  | post _ => exact ⟨pending, h.keep rfl rfl id (fun _ => le_rfl) fun _ hends => ⟨hends, rfl⟩⟩
  | postThrow _ => exact ⟨pending, h.keep rfl rfl id (fun _ => le_rfl) fun _ hends => ⟨hends, rfl⟩⟩
  | job hn =>
    refine ⟨pending, h.keep rfl rfl id (fun _ => le_rfl) fun _ hends => ⟨fun p hp => ?_, ?_⟩⟩
    · exact hends p (mem_cons_of_mem hp)
    · cases hready : s.ready <;> simp [State.inHand, hready, Pc.handle]
  | delete => exact ⟨pending, h.keep rfl rfl id (fun _ => le_rfl) fun _ hends => ⟨hends, rfl⟩⟩
  | deleteRoot => exact ⟨pending, h.keep rfl rfl id (fun _ => le_rfl) fun _ hends => ⟨hends, rfl⟩⟩

end Resumes

/-! ## Progress -/

/-- The steps that a call of `Run` has left before it finishes, waits or resumes again. -/
def Pc.weight : Pc η ε → ℕ
  | .enter _ => 9
  | .resuming => 7
  | .resumed => 6
  | .after _ => 5
  | .finishing _ => 4
  | .check => 4
  | .locked _ => 3
  | .released _ => 2

def Frame.weight : Frame η ε → ℕ
  | .executing => 1
  | _ => 0

def State.weight (s : State η ε) : ℕ :=
  (s.runs.map Pc.weight).sum + s.frame.weight + 6 * s.ready.toList.length + 19 * s.open_.card +
    18 * s.requests.card + 11 * s.posting + 10 * s.jobs + (!s.deleted).toNat

/-- Every step uses up weight, and a suspension brings it. -/
theorem weight_step (hs : Step s l s') : s'.weight + 1 ≤ s.weight + 19 * suspensions [l] := by
  -- the weight of the calls of `Run` at a step of one of them
  have hruns : ∀ (pc : Pc η ε) (rest : Multiset (Pc η ε)),
      ((pc ::ₘ rest).map Pc.weight).sum = pc.weight + (rest.map Pc.weight).sum := fun pc rest => by
    rw [Multiset.map_cons, Multiset.sum_cons]
  have hframe : s.frame.weight ≤ 1 := by cases s.frame <;> simp [Frame.weight]
  cases hs with
  | resume hr =>
    simp only [State.weight, hr, hruns, Pc.weight, Frame.weight]
    omega
  | suspend hr hexec =>
    simp only [State.weight, hr, hruns, hexec, Frame.weight, card_cons]
    show _ ≤ _ + 19 * 1
    omega
  | complete hr hexec =>
    simp only [State.weight, hexec, Frame.weight]
    omega
  | throwBefore hr =>
    simp only [State.weight, hr, hruns, Pc.weight]
    omega
  | leave hr _ =>
    simp only [State.weight, hr, hruns, Pc.weight]
    omega
  | returnAround hr =>
    simp only [State.weight, hr, hruns, Pc.weight]
    omega
  | throwAfter hr =>
    simp only [State.weight, hr, hruns, Pc.weight]
    omega
  | failed hr =>
    simp only [State.weight, hr, hruns, Pc.weight]
    omega
  | ended hr _ =>
    simp only [State.weight, hr, hruns, Pc.weight]
    omega
  | goOn hr _ =>
    simp only [State.weight, hr, hruns, Pc.weight]
    omega
  | finish hr =>
    simp only [State.weight, hr, hruns, Pc.weight, Option.toList_none, List.length_nil]
    omega
  | destroy hr =>
    simp only [State.weight, hr, hruns, Pc.weight, Frame.weight]
    omega
  | done hr =>
    simp only [State.weight, hr, hruns, Pc.weight]
    omega
  | again hr hready =>
    simp only [State.weight, hr, hruns, hready, Pc.weight, Option.toList_none, Option.toList_some,
      List.length_nil, List.length_singleton]
    omega
  | rest hr _ =>
    simp only [State.weight, hr, hruns, Pc.weight]
    omega
  | call ho _ =>
    simp only [State.weight, ho, card_cons]
    omega
  | callGone ho _ =>
    simp only [State.weight, ho, card_cons]
    omega
  | requestLate hr _ =>
    simp only [State.weight, hr, card_cons]
    omega
  | requestMultiple hr _ _ =>
    simp only [State.weight, hr, card_cons]
    omega
  | request hr _ hready _ =>
    simp only [State.weight, hr, hready, card_cons, Option.toList_none, Option.toList_some,
      List.length_nil, List.length_singleton]
    omega
  | requestSchedule hr _ hready _ =>
    simp only [State.weight, hr, hready, card_cons, Option.toList_none, Option.toList_some,
      List.length_nil, List.length_singleton]
    omega
  | post hn =>
    simp only [State.weight, hn]
    omega
  | postThrow hn =>
    simp only [State.weight, hn]
    omega
  | job hn =>
    simp only [State.weight, hn, hruns, Pc.weight, Option.toList_none, List.length_nil]
    omega
  | delete _ hdeleted _ =>
    simp only [State.weight, hdeleted]
    simp
  | deleteRoot _ hdeleted _ =>
    simp only [State.weight, hdeleted, Frame.weight]
    simp
    omega

theorem length_le (hrun : Run Step (State.initial root) ls s) :
    ls.length ≤ 10 + 19 * suspensions ls := by
  have hall := hrun.history
    (I := fun ls s => ls.length + s.weight ≤ 10 + 19 * suspensions ls)
    (fun ls s l s' h hs => by
      have hw := weight_step hs
      have happ : suspensions (ls ++ [l]) = suspensions ls + suspensions [l] := List.countP_append
      grind)
    (by simp [State.initial, State.weight, Pc.weight, Frame.weight])
  omega

/-- A runner that can take no step has called `done`, or its `post` threw. -/
theorem Shape.stuck (h : Shape s) (hstuck : ∀ l s', ¬ Step s l s') :
    s.finished = true ∧ s.runs = 0 ∨ s.scheduled = true ∧ s.posting = 0 ∧ s.jobs = 0 := by
  have hposting : s.posting = 0 := by
    cases hn : s.posting with
    | zero => rfl
    | succ n => exact absurd (.post hn) (hstuck _ _)
  have hjobs : s.jobs = 0 := by
    cases hn : s.jobs with
    | zero => rfl
    | succ n => exact absurd (.job hn) (hstuck _ _)
  cases h with
  | @active pc ha =>
    have hr : s.runs = pc ::ₘ 0 := ha.runs
    exfalso
    cases pc with
    | enter x => exact hstuck _ _ (.resume hr)
    | resuming =>
      by_cases hexec : s.frame = .executing
      · exact hstuck _ _ (.complete (e := none) hr hexec)
      · exact hstuck _ _ (.leave hr hexec)
    | resumed => exact hstuck _ _ (.returnAround hr)
    | after e =>
      cases e with
      | some e => exact hstuck _ _ (.failed hr)
      | none =>
        cases hfinal : s.frame.isFinal with
        | true => exact hstuck _ _ (.ended hr hfinal)
        | false => exact hstuck _ _ (.goOn hr hfinal)
    | finishing e => exact hstuck _ _ (.finish hr)
    | locked e => exact ha.fits
    | released e => exact ha.fits
    | check =>
      cases hready : s.ready with
      | none => exact hstuck _ _ (.rest hr hready)
      | some x => exact hstuck _ _ (.again hr hready)
  | @waiting x hw =>
    -- its handle is in `ready_`: a `Request` that was not made or is under way can go on
    have hopen : s.open_ = 0 := by
      by_contra hne
      obtain ⟨y, hy⟩ := Multiset.exists_mem_of_ne_zero hne
      obtain ⟨others, ho⟩ := Multiset.exists_cons_of_mem hy
      exact hstuck _ _ (.call ho (.inl hw.keepalive))
    have hrequests : s.requests = 0 := by
      by_contra hne
      obtain ⟨y, hy⟩ := Multiset.exists_mem_of_ne_zero hne
      obtain ⟨others, hr⟩ := Multiset.exists_cons_of_mem hy
      by_cases hready : s.ready = none
      · cases hbusy : s.running || s.scheduled with
        | true => exact hstuck _ _ (.request hr hw.finished hready hbusy)
        | false => exact hstuck _ _ (.requestSchedule hr hw.finished hready hbusy)
      · exact hstuck _ _ (.requestMultiple hr hw.finished hready)
    refine .inr ⟨?_, hposting, hjobs⟩
    rw [hw.scheduled]
    cases hready : s.ready with
    | some => rfl
    | none =>
      have hout := hw.outstanding
      simp only [State.outstanding, hopen, hrequests, hready, Option.elim_none, add_zero] at hout
      exact absurd hout.symm (Multiset.singleton_ne_zero x)
  | ended ho =>
    rcases ho.runs with ⟨e, hruns, -⟩ | ⟨e, hruns, -⟩ | ⟨hruns, -⟩
    · have hr : s.runs = .locked e ::ₘ 0 := hruns
      exact absurd (.destroy hr) (hstuck _ _)
    · have hr : s.runs = .released e ::ₘ 0 := hruns
      exact absurd (.done hr) (hstuck _ _)
    · exact .inl ⟨ho.finished, hruns⟩

/-! ## The runner -/

theorem Shape.executing (h : Shape s) (hexec : s.frame = .executing) : s.runs = {.resuming} := by
  cases h with
  | @active pc ha =>
    have hfits := ha.fits
    rw [hexec] at hfits
    cases pc with
    | resuming => exact ha.runs
    | enter =>
      obtain ⟨x, hx, hframe, hout⟩ := hfits
      cases hframe
    | resumed => exact absurd rfl hfits.2
    | after e =>
      cases e with
      | none => exact absurd rfl hfits.2
      | some => exact absurd rfl hfits.1
    | finishing => exact absurd rfl hfits.1
    | check =>
      obtain ⟨x, hframe, hout⟩ := hfits
      cases hframe
    | locked => exact hfits.elim
    | released => exact hfits.elim
  | waiting hw =>
    rw [hw.frame] at hexec
    cases hexec
  | ended ho =>
    rcases ho.runs with ⟨-, -, -, -, -, hne, -⟩ | ⟨-, -, -, -, hframe⟩ | ⟨-, -, -, hframe⟩
    · exact absurd hexec hne
    · rw [hexec] at hframe
      cases hframe
    · rw [hexec] at hframe
      cases hframe

theorem Shape.ready_kept (h : Shape s) (hready : s.ready ≠ none) :
    (s.running || s.scheduled) = true := by
  cases h with
  | active ha => rw [ha.running, Bool.true_or]
  | waiting hw =>
    rw [hw.scheduled, Option.isSome_iff_ne_none.2 hready, Bool.or_true]
  | ended ho => exact absurd ho.ready hready

theorem Shape.root_of_open (h : Shape s) (hf : s.finished = false) : s.root = true := by
  rcases h.of_not_finished hf with ⟨pc, ha⟩ | ⟨x, hw⟩
  · exact ha.root
  · exact hw.root

structure Kept (root : η) (ls : List (Label η ε)) (s : State η ε) : Prop where
  shape : Shape s
  destroyed : destroys ls = (!s.root).toNat
  doneOnce : DoneOnce ls s
  thrown : s.posting + s.jobs + throws ls = s.scheduled.toNat
  told : Told ls s
  resumes : ∃ pending, Resumes root ls s pending

theorem Kept.run (hrun : Run Step (State.initial root) ls s) : Kept root ls s := by
  refine hrun.history (I := Kept root) (fun ls s l s' h hs => ?_) ?_
  · obtain ⟨pending, hpending⟩ := h.resumes
    exact ⟨h.shape.step hs, destroys_step h.shape h.destroyed hs, doneOnce_step h.shape h.doneOnce hs,
      throws_step h.thrown hs, h.told.step hs, hpending.step h.shape hs⟩
  · exact ⟨.init, rfl, ⟨fun _ => rfl, nofun⟩, rfl, .init, [root], .init⟩

/-- Whatever the calls of `Run` and `Request`, the jobs, the hook and the frame do, in any order: a
resume finds the frame alive and suspended at its handle, and one call executes it; the requests are
resumed in order, once each, but for one that is in `ready_` or about to be resumed, unless the runner
is at its end; a handle in `ready_` is not forgotten; no `Request` finds another one's handle there;
`done` is called at most once, with the exception of the frame or of the hook, after the frame was
destroyed, and nothing is resumed after it; the frame is destroyed at most once, and not before the
runner has finished.  A run is as long as the frame's suspensions make it, and one that cannot go on
has called `done` exactly once, unless `post` threw. -/
theorem runner_resumes_once (hrun : Run Step (State.initial root) ls s) :
    (∀ x frame, .resume x frame ∈ ls → ∃ h, x = some h ∧ frame = .suspended h) ∧
    (s.frame = .executing → s.runs = {.resuming}) ∧
    (∃ pending, resumed ls ++ pending = root :: requested ls ∧ pending.length ≤ 1 ∧
      (s.finished = false → (∀ pc ∈ s.runs, pc.ends = false) →
        (pending : Multiset η) = s.inHand)) ∧
    (s.ready ≠ none → (s.running || s.scheduled) = true) ∧
    (∀ h, .multiple h ∉ ls) ∧
    (dones ls).length ≤ 1 ∧
    (∀ e, .done e ∈ ls → Cause ls e ∧ destroys ls = 1 ∧
      ∀ l s', Step s l s' → ∀ x frame, l ≠ .resume x frame) ∧
    (destroys ls ≤ 1 ∧ (s.finished = false → destroys ls = 0 ∧ s.frame ≠ .destroyed)) ∧
    ls.length ≤ 10 + 19 * suspensions ls ∧
    (.postThrew ∉ ls → (∀ l s', ¬ Step s l s') → (dones ls).length = 1) := by
  have h := Kept.run hrun
  have hfine := fine_run hrun
  have hle : destroys ls ≤ 1 := h.destroyed ▸ Bool.toNat_le _
  refine ⟨fun x frame hmem => hfine _ hmem, h.shape.executing, ?_, h.shape.ready_kept,
    fun x hmem => hfine _ hmem, ?_, fun e hmem => ?_, ⟨hle, fun hf => ?_⟩, length_le hrun,
    fun hpost hstuck => ?_⟩
  · obtain ⟨pending, hpending⟩ := h.resumes
    exact ⟨pending, hpending.order, hpending.length, hpending.inHand⟩
  · cases hf : s.finished with
    | false => simp [h.doneOnce.1 hf]
    | true =>
      have := h.doneOnce.2 hf
      omega
  · have hpos : 0 < (dones ls).length := by
      refine List.length_pos_of_mem (a := e) ?_
      exact List.mem_filterMap.2 ⟨_, hmem, rfl⟩
    have hf : s.finished = true := by
      by_contra hne
      rw [h.doneOnce.1 (Bool.eq_false_of_not_eq_true hne)] at hpos
      exact Nat.lt_irrefl 0 hpos
    have hone := h.doneOnce.2 hf
    have hruns : s.runs = 0 := Multiset.card_eq_zero.1 (by omega)
    refine ⟨h.told.dones e hmem, ?_, ?_⟩
    · rcases (h.shape.of_finished hf).runs with ⟨e, hne, -⟩ | ⟨e, hne, -⟩ | ⟨-, hroot, -⟩
      · rw [hruns] at hne
        exact absurd hne.symm (Multiset.singleton_ne_zero _)
      · rw [hruns] at hne
        exact absurd hne.symm (Multiset.singleton_ne_zero _)
      · rw [h.destroyed, hroot]
        rfl
    · rintro l s' hs x frame rfl
      cases hs with
      | resume hr =>
        rw [hruns] at hr
        exact Multiset.cons_ne_zero hr.symm
  · refine ⟨by rw [h.destroyed, h.shape.root_of_open hf]; rfl, fun hframe => ?_⟩
    rcases h.shape.of_not_finished hf with ⟨pc, ha⟩ | ⟨x, hw⟩
    · exact ha.fits.ne_destroyed hframe
    · rw [hw.frame] at hframe
      cases hframe
  · rcases h.shape.stuck hstuck with ⟨hf, hruns⟩ | ⟨hscheduled, hposting, hjobs⟩
    · have hone := h.doneOnce.2 hf
      rw [hruns, Multiset.card_zero] at hone
      exact hone
    · have hthrown := h.thrown
      have hnone : throws ls = 0 := List.countP_eq_zero.2 fun l hl => by
        cases l with
        | postThrew => exact absurd hl hpost
        | _ => simp
      rw [hscheduled, hposting, hjobs, hnone] at hthrown
      cases hthrown

theorem complete_run : ∃ ls : List (Label ℕ ℕ), ∃ s,
    Run Step (State.initial 0) ls s ∧ .destroy ∈ ls ∧ s.frame = .destroyed ∧ dones ls = [] ∧
    ∃ s', Step s (.done none) s' := by
  have h : Run Step (State.initial 0 : State ℕ ℕ) [] (.initial 0) := .nil _
  have h := h.snoc (.resume (show _ = Pc.enter (some 0) ::ₘ 0 from rfl))
  have h := h.snoc (.complete (e := none) (show _ = Pc.resuming ::ₘ 0 from rfl) rfl)
  have h := h.snoc (.leave (show _ = Pc.resuming ::ₘ 0 from rfl) nofun)
  have h := h.snoc (.returnAround (show _ = Pc.resumed ::ₘ 0 from rfl))
  have h := h.snoc (.ended (show _ = Pc.after none ::ₘ 0 from rfl) rfl)
  have h := h.snoc (.finish (show _ = Pc.finishing none ::ₘ 0 from rfl))
  have h := h.snoc (.destroy (show _ = Pc.locked none ::ₘ 0 from rfl))
  exact ⟨_, _, h, by simp, rfl, rfl, _, .done (show _ = Pc.released none ::ₘ 0 from rfl)⟩

/-- A run in which `post` throws for the first `Request`, and nothing can happen any more. -/
theorem postThrow_run : ∃ ls : List (Label ℕ ℕ), ∃ s, Run Step (State.initial 0) ls s ∧
    .postThrew ∈ ls ∧ dones ls = [] ∧ ∀ l s', ¬ Step s l s' := by
  have h : Run Step (State.initial 0 : State ℕ ℕ) [] (.initial 0) := .nil _
  have h := h.snoc (.resume (show _ = Pc.enter (some 0) ::ₘ 0 from rfl))
  have h := h.snoc (.suspend (h := 1) (show _ = Pc.resuming ::ₘ 0 from rfl) rfl)
  have h := h.snoc (.leave (show _ = Pc.resuming ::ₘ 0 from rfl) nofun)
  have h := h.snoc (.returnAround (show _ = Pc.resumed ::ₘ 0 from rfl))
  have h := h.snoc (.goOn (show _ = Pc.after none ::ₘ 0 from rfl) rfl)
  have h := h.snoc (.rest (show _ = Pc.check ::ₘ 0 from rfl) rfl)
  have h := h.snoc (.call (show _ = 1 ::ₘ 0 from rfl) (.inl rfl))
  have h := h.snoc (.requestSchedule (show _ = 1 ::ₘ 0 from rfl) rfl rfl rfl)
  have h := h.snoc (.postThrow (show _ = 0 + 1 from rfl))
  refine ⟨_, _, h, by simp, rfl, fun l s' hs => ?_⟩
  have hruns : ∀ (pc : Pc ℕ ℕ) (rest : Multiset (Pc ℕ ℕ)), 0 ≠ pc ::ₘ rest :=
    fun pc rest heq => cons_ne_zero heq.symm
  have hnone : ∀ (x : ℕ) (rest : Multiset ℕ), 0 ≠ x ::ₘ rest :=
    fun x rest heq => cons_ne_zero heq.symm
  cases hs with
  | call ho _ => exact hnone _ _ ho
  | callGone ho _ => exact hnone _ _ ho
  | requestLate hr _ => exact hnone _ _ hr
  | requestMultiple hr _ _ => exact hnone _ _ hr
  | request hr _ _ _ => exact hnone _ _ hr
  | requestSchedule hr _ _ _ => exact hnone _ _ hr
  | post hn => cases hn
  | postThrow hn => cases hn
  | job hn => cases hn
  | delete hn _ _ => exact hn (.inl rfl)
  | deleteRoot hn _ _ => exact hn (.inl rfl)
  | resume hr => exact hruns _ _ hr
  | throwBefore hr => exact hruns _ _ hr
  | suspend hr _ => exact hruns _ _ hr
  | complete hr _ => exact hruns _ _ hr
  | leave hr _ => exact hruns _ _ hr
  | returnAround hr => exact hruns _ _ hr
  | throwAfter hr => exact hruns _ _ hr
  | failed hr => exact hruns _ _ hr
  | ended hr _ => exact hruns _ _ hr
  | finish hr => exact hruns _ _ hr
  | destroy hr => exact hruns _ _ hr
  | done hr => exact hruns _ _ hr
  | goOn hr _ => exact hruns _ _ hr
  | again hr _ => exact hruns _ _ hr
  | rest hr _ => exact hruns _ _ hr

theorem runner_resumes_once_complete : ∃ ls : List (Label ℕ ℕ), ∃ s,
    Run Step (State.initial 0) ls s ∧ .done none ∈ ls ∧ destroys ls = 1 := by
  obtain ⟨ls, s, hrun, -, -, -, s', hs⟩ := complete_run
  have hrun' := hrun.snoc hs
  have hmem : Label.done none ∈ ls ++ [.done none] :=
    List.mem_append_right _ (List.mem_singleton_self _)
  obtain ⟨-, -, -, -, -, -, hdone, -⟩ := runner_resumes_once hrun'
  exact ⟨_, _, hrun', hmem, (hdone none hmem).2.1⟩

/-- After a `post` that throws, `done` is never called; and the frame is destroyed before `done`. -/
theorem not_done_of_postThrew :
    (∃ ls : List (Label ℕ ℕ), ∃ s, Run Step (State.initial 0) ls s ∧ .postThrew ∈ ls ∧
      dones ls = [] ∧ ∀ l s', ¬ Step s l s') ∧
    ∃ ls : List (Label ℕ ℕ), ∃ s, Run Step (State.initial 0) ls s ∧ s.frame = .destroyed ∧
      dones ls = [] := by
  obtain ⟨ls, s, hrun, -, hframe, hdones, -⟩ := complete_run
  exact ⟨postThrow_run, ls, s, hrun, hframe, hdones⟩

end TinyImx.Gateway.BusinessCoroutine
