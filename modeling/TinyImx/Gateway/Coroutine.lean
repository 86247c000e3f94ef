import Mathlib.Data.Multiset.AddSub
import TinyImx.Lib.Run

/-!
# The runner of a business coroutine

`BusinessCoroutine::Runner` owns one frame.  `Run` resumes it under the `around` hook until it
finishes or suspends without a `Request`; a `Request` leaves the handle to resume in `ready_` and, if
nobody is about to look there, posts a job that runs again.

The calls of `Run`, the calls of `Request` and the posted jobs under way are part of the state, and a
step is a step of one of them: a block under the mutex, a call of a hook, a move of the frame.  Each
suspension of the frame leaves one `Request` to be made, by any thread and at any time from then on.
-/

namespace TinyImx.Gateway.BusinessCoroutine

inductive Frame (η ε : Type) where
  | suspended (handle : η)
  | executing
  | final (error : Option ε)
  | destroyed

/-- A call of `Run`. -/
inductive Pc (η ε : Type) where
  /-- Before the `around` hook; a null handle is `none`. -/
  | enter (handle : Option η)
  /-- Inside `resume`. -/
  | resuming
  /-- In the `around` hook, after its job. -/
  | resumed
  | after (error : Option ε)
  /-- Before the lock at the end, with the error for `done`. -/
  | finishing (error : Option ε)
  | locked (error : Option ε)
  /-- Before the call of `done`. -/
  | released (error : Option ε)
  /-- Before the lock around the look at `ready_`. -/
  | check

structure State (η ε : Type) where
  ready : Option η
  running : Bool
  scheduled : Bool
  finished : Bool
  /-- `root_` is set. -/
  root : Bool
  keepalive : Bool
  deleted : Bool
  frame : Frame η ε
  /-- The calls of `Run`. -/
  runs : Multiset (Pc η ε)
  /-- The suspensions whose `Request` has not been made. -/
  open_ : Multiset η
  /-- The calls of `Request` before their lock. -/
  requests : Multiset η
  /-- The calls of `Request` about to post their job. -/
  posting : ℕ
  jobs : ℕ

inductive Label (η ε : Type) where
  | silent
  | suspend (handle : η)
  | completed (error : Option ε)
  | aroundThrew (error : ε)
  | resume (handle : Option η) (frame : Frame η ε)
  /-- `Request` stores its handle. -/
  | request (handle : η)
  /-- `Request` finds the runner finished, or the runner is gone. -/
  | late (handle : η)
  /-- `Request` throws for a second outstanding resume. -/
  | multiple (handle : η)
  | postThrew
  | destroy
  | done (error : Option ε)

variable {η ε : Type}

def State.initial (root : η) : State η ε where
  ready := none
  running := true
  scheduled := false
  finished := false
  root := true
  keepalive := true
  deleted := false
  frame := .suspended root
  runs := {.enter (some root)}
  open_ := 0
  requests := 0
  posting := 0
  jobs := 0

def State.owned (s : State η ε) : Prop :=
  s.keepalive = true ∨ s.runs ≠ 0 ∨ s.requests ≠ 0 ∨ s.posting ≠ 0 ∨ s.jobs ≠ 0

def Frame.isFinal : Frame η ε → Bool
  | .final _ => true
  | _ => false

def Frame.error : Frame η ε → Option ε
  | .final error => error
  | _ => none

inductive Step : State η ε → Label η ε → State η ε → Prop
  -- `Run`, up to the look at the error and at `root_.done()`
  | resume {s : State η ε} {rest : Multiset (Pc η ε)} {h : Option η} :
      s.runs = .enter h ::ₘ rest →
      Step s (.resume h s.frame) { s with frame := .executing, runs := .resuming ::ₘ rest }
  | throwBefore {s : State η ε} {rest : Multiset (Pc η ε)} {h : Option η} {e : ε} :
      s.runs = .enter h ::ₘ rest →
      Step s (.aroundThrew e) { s with runs := .after (some e) ::ₘ rest }
  | suspend {s : State η ε} {rest : Multiset (Pc η ε)} {h : η} :
      s.runs = .resuming ::ₘ rest → s.frame = .executing →
      Step s (.suspend h) { s with frame := .suspended h, open_ := h ::ₘ s.open_ }
  | complete {s : State η ε} {rest : Multiset (Pc η ε)} {e : Option ε} :
      s.runs = .resuming ::ₘ rest → s.frame = .executing →
      Step s (.completed e) { s with frame := .final e }
  | leave {s : State η ε} {rest : Multiset (Pc η ε)} :
      s.runs = .resuming ::ₘ rest → s.frame ≠ .executing →
      Step s .silent { s with runs := .resumed ::ₘ rest }
  | returnAround {s : State η ε} {rest : Multiset (Pc η ε)} :
      s.runs = .resumed ::ₘ rest → Step s .silent { s with runs := .after none ::ₘ rest }
  | throwAfter {s : State η ε} {rest : Multiset (Pc η ε)} {e : ε} :
      s.runs = .resumed ::ₘ rest →
      Step s (.aroundThrew e) { s with runs := .after (some e) ::ₘ rest }
  -- The end of a frame
  | failed {s : State η ε} {rest : Multiset (Pc η ε)} {e : ε} : s.runs = .after (some e) ::ₘ rest →
      Step s .silent { s with runs := .finishing (some e) ::ₘ rest }
  | ended {s : State η ε} {rest : Multiset (Pc η ε)} : s.runs = .after none ::ₘ rest →
      s.frame.isFinal = true →
      Step s .silent { s with runs := .finishing s.frame.error ::ₘ rest }
  | finish {s : State η ε} {rest : Multiset (Pc η ε)} {e : Option ε} :
      s.runs = .finishing e ::ₘ rest →
      Step s .silent { s with
        finished := true, running := false, ready := none, runs := .locked e ::ₘ rest }
  | destroy {s : State η ε} {rest : Multiset (Pc η ε)} {e : Option ε} :
      s.runs = .locked e ::ₘ rest →
      Step s .destroy { s with
        root := false, keepalive := false, frame := .destroyed, runs := .released e ::ₘ rest }
  | done {s : State η ε} {rest : Multiset (Pc η ε)} {e : Option ε} :
      s.runs = .released e ::ₘ rest → Step s (.done e) { s with runs := rest }
  -- The look at `ready_`
  | goOn {s : State η ε} {rest : Multiset (Pc η ε)} : s.runs = .after none ::ₘ rest →
      s.frame.isFinal = false → Step s .silent { s with runs := .check ::ₘ rest }
  | again {s : State η ε} {rest : Multiset (Pc η ε)} {h : η} : s.runs = .check ::ₘ rest →
      s.ready = some h →
      Step s .silent { s with ready := none, runs := .enter (some h) ::ₘ rest }
  | rest {s : State η ε} {rest : Multiset (Pc η ε)} : s.runs = .check ::ₘ rest → s.ready = none →
      Step s .silent { s with running := false, runs := rest }
  -- `Request`, through the `schedule_` of the suspension
  | call {s : State η ε} {others : Multiset η} {h : η} : s.open_ = h ::ₘ others → s.owned →
      Step s .silent { s with open_ := others, requests := h ::ₘ s.requests }
  | callGone {s : State η ε} {others : Multiset η} {h : η} : s.open_ = h ::ₘ others → ¬ s.owned →
      Step s (.late h) { s with open_ := others }
  | requestLate {s : State η ε} {others : Multiset η} {h : η} : s.requests = h ::ₘ others →
      s.finished = true → Step s (.late h) { s with requests := others }
  | requestMultiple {s : State η ε} {others : Multiset η} {h : η} : s.requests = h ::ₘ others →
      s.finished = false → s.ready ≠ none →
      Step s (.multiple h) { s with requests := others }
  | request {s : State η ε} {others : Multiset η} {h : η} : s.requests = h ::ₘ others →
      s.finished = false → s.ready = none → (s.running || s.scheduled) = true →
      Step s (.request h) { s with requests := others, ready := some h }
  | requestSchedule {s : State η ε} {others : Multiset η} {h : η} : s.requests = h ::ₘ others →
      s.finished = false → s.ready = none → (s.running || s.scheduled) = false →
      Step s (.request h) { s with
        requests := others, ready := some h, scheduled := true, posting := s.posting + 1 }
  | post {s : State η ε} {n : ℕ} : s.posting = n + 1 →
      Step s .silent { s with posting := n, jobs := s.jobs + 1 }
  | postThrow {s : State η ε} {n : ℕ} : s.posting = n + 1 →
      Step s .postThrew { s with posting := n }
  -- A posted job
  | job {s : State η ε} {n : ℕ} : s.jobs = n + 1 →
      Step s .silent { s with
        jobs := n, scheduled := false, running := true, ready := none,
        runs := .enter s.ready ::ₘ s.runs }
  -- `~Runner`
  | delete {s : State η ε} : ¬ s.owned → s.deleted = false → s.root = false →
      Step s .silent { s with deleted := true }
  | deleteRoot {s : State η ε} : ¬ s.owned → s.deleted = false → s.root = true →
      Step s .destroy { s with deleted := true, frame := .destroyed }

end TinyImx.Gateway.BusinessCoroutine
