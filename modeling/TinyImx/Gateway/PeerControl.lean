import TinyImx.Gateway.PeerMoves

/-!
# The count and the clearing of the tables

A piece of code that runs to its end is quiet: it keeps the count true, puts nothing into an empty table
of a stopped transport, and leaves only plain code behind.  The pieces that are not quiet are those that
fail a whole table, and what they leave undone is in the code that is still to run.
-/

namespace TinyImx.Gateway.PeerTransport

open Net Protocol
open List (cons_append mem_append_right mem_cons mem_cons_self mem_singleton not_mem_nil)

variable {ρ : Type} {w : Wire ρ} {s s' : State ρ} {label : Label}

/-! ## The code that is still to run -/

def Instr.plain : Instr → Bool
  | .failAllPending _ _ _ => false
  | .cleared => false
  | _ => true

namespace State

variable (s : State ρ)

def total : ℕ := (s.tables .chat).length + (s.tables .group).length

/-- A piece of a handler that runs to its end, but for plain code that it leaves behind. -/
structure Quiet (s s' : State ρ) : Prop where
  code : ∃ pushed, s'.code = pushed ++ s.code ∧ ∀ instr ∈ pushed, instr.plain = true
  running : s'.running = s.running
  closed : s'.closed = s.closed
  stops : s'.stops = s.stops
  tables : s.running = false → ∀ kind, s.tables kind = [] → s'.tables kind = []
  queues : s.running = false → ∀ kind, s.queues kind = [] → s'.queues kind = []
  count : s.pendingCount = s.total → s'.pendingCount = s'.total
  next : s.nextSequence ≠ 0 → s'.nextSequence ≠ 0

end State

namespace State.Quiet

theorem refl (s : State ρ) : Quiet s s :=
  ⟨⟨[], rfl, fun _ h => absurd h not_mem_nil⟩, rfl, rfl, rfl, fun _ _ h => h, fun _ _ h => h,
    fun h => h, fun h => h⟩

theorem trans {t : State ρ} (h : Quiet s t) (h' : Quiet t s') : Quiet s s' := by
  obtain ⟨pushed, hcode, hplain⟩ := h.code
  obtain ⟨pushed', hcode', hplain'⟩ := h'.code
  refine ⟨⟨pushed' ++ pushed, by rw [hcode', hcode, List.append_assoc], fun instr hinstr => ?_⟩,
    h'.running.trans h.running, h'.closed.trans h.closed, h'.stops.trans h.stops,
    fun hstopped kind hempty => ?_, fun hstopped kind hempty => ?_,
    fun hcount => h'.count (h.count hcount), fun hne => h'.next (h.next hne)⟩
  · grind
  · exact h'.tables (h.running.trans hstopped) kind (h.tables hstopped kind hempty)
  · exact h'.queues (h.running.trans hstopped) kind (h.queues hstopped kind hempty)

theorem push (s : State ρ) {code : List Instr} (h : ∀ instr ∈ code, instr.plain = true) :
    Quiet s (s.push code) :=
  { refl s with code := ⟨code, rfl, h⟩ }

theorem cancel (s : State ρ) (timer : Option ℕ) : Quiet s (s.cancel timer) := { refl s with }

theorem complete (s : State ρ) (id : ℕ) (callback : Bool) (cause : Cause) (result : Result ρ) :
    Quiet s (s.complete id callback cause result) := by
  cases callback with
  | false => exact { refl s with }
  | true =>
    exact { refl s with
      code := ⟨[.outside], rfl, fun instr h => by rw [mem_singleton.1 h]; rfl⟩ }

theorem setQueue (s : State ρ) (kind : Kind) {queue : List Submission}
    (h : s.running = true ∨ queue = []) : Quiet s (s.setQueue kind queue) := by
  refine { refl s with queues := fun hstopped k hempty => ?_ }
  change (if k = kind then queue else s.queues k) = []
  simp_all

theorem setTable (s : State ρ) (kind : Kind) {table : Table}
    (h : s.running = true ∨ (s.tables kind = [] → table = [])) :
    Quiet s (s.setTable kind table).storeCount := by
  refine { refl s with tables := fun hstopped k hempty => ?_, count := fun _ => rfl }
  change (if k = kind then table else s.tables k) = []
  grind

theorem handleResponse (s : State ρ) (kind : Kind) (packet : Packet) :
    Quiet s (s.handleResponse w kind packet) := by
  unfold State.handleResponse
  split
  · exact refl s
  · exact ((setTable s kind (.inr fun hempty => by rw [hempty]; rfl)).trans (cancel _ _)).trans
      (complete _ _ _ _ _)

theorem handleTimeout (s : State ρ) (timer : Timer) : Quiet s (s.handleTimeout timer) := by
  unfold State.handleTimeout
  refine (cancel s (some timer.id)).trans ?_
  dsimp only
  split
  · exact refl _
  · exact (setTable (s.cancel (some timer.id)) timer.kind (.inr fun hempty => by rw [hempty]; rfl)).trans
      (complete _ _ _ _ _)

theorem handlePacket (s : State ρ) (packet : Packet) : Quiet s (s.handlePacket w packet) := by
  unfold State.handlePacket
  split
  · exact handleResponse s .chat packet
  · split
    · exact handleResponse s .group packet
    · exact refl s

theorem track (s : State ρ) (h : s.running = true) (submission : Submission) (n : UInt32)
    (timerArmed : Bool) : Quiet s (s.track submission n timerArmed) :=
  trans (t := { s with
    timers := if timerArmed then
        s.timers ++ [⟨s.nextTimer, submission.request.kind, n, submission.id⟩] else s.timers
    nextTimer := s.nextTimer + 1
    events := s.events ++ [.given submission.id submission.request.kind n] })
    { refl s with } (setTable _ _ (.inl h))

theorem forwardInLoop (s : State ρ) (submission : Submission) (connectionUsable timerArmed : Bool) :
    Quiet s (s.forwardInLoop w submission connectionUsable timerArmed) := by
  unfold State.forwardInLoop
  split
  · exact complete _ _ _ _ _
  next hrunning =>
  rw [Bool.not_eq_true', Bool.not_eq_false] at hrunning
  split
  · exact setQueue s _ (.inl hrunning)
  split
  · exact complete _ _ _ _ _
  dsimp only
  have hnext : s.takeSequence.2.nextSequence =
      (nextSequenceLoop s.used maxAttempts s.nextSequence).2 := rfl
  have hsequence : Quiet s s.takeSequence.2 :=
    { refl s with next := fun hne => by rw [hnext]; exact nextSequenceLoop_next hne }
  refine hsequence.trans ?_
  split
  · exact complete _ _ _ _ _
  split
  · exact complete _ _ _ _ _
  · exact (track s.takeSequence.2 hrunning submission _ timerArmed).trans
      (push _ fun instr h => by rw [mem_singleton.1 h]; rfl)

theorem exec (s : State ρ) {instr : Instr} (found : Found) (h : instr.plain = true) :
    Quiet s (s.exec w found instr) := by
  cases instr with
  | outside => exact refl s
  | setDisconnected => exact { refl s with }
  | failAllPending kind status text => cases h
  | failEachPending kind status text entries =>
    cases entries with
    | nil => exact refl s
    | cons e entries =>
      exact ((push s fun instr h => by rw [mem_singleton.1 h]; rfl).trans (cancel _ _)).trans
        (complete _ _ _ _ _)
  | failQueued kind status text =>
    exact (setQueue s kind (.inr rfl)).trans
      (push _ fun instr h => by rw [mem_singleton.1 h]; rfl)
  | failEachQueued status text submissions =>
    cases submissions with
    | nil => exact refl s
    | cons submission submissions =>
      exact (push s fun instr h => by rw [mem_singleton.1 h]; rfl).trans (complete _ _ _ _ _)
  | flushQueued kind =>
    exact (setQueue s kind (.inr rfl)).trans
      (push _ fun instr h => by rw [mem_singleton.1 h]; rfl)
  | flushEach submissions =>
    cases submissions with
    | nil => exact refl s
    | cons submission submissions =>
      refine push s fun instr h => ?_
      rcases mem_cons.1 h with rfl | h
      · rfl
      · rw [mem_singleton.1 h]
        rfl
  | forwardInLoop submission => exact forwardInLoop s submission _ _
  | packets packets =>
    cases packets with
    | nil => exact refl s
    | cons packet packets =>
      exact (push s fun instr h => by rw [mem_singleton.1 h]; rfl).trans (handlePacket _ _)
  | cleared => cases h

end State.Quiet

/-! ## Counting and clearing -/

def GroupAhead (code : List Instr) : Prop :=
  ∃ status text, Instr.failAllPending .group status text ∈ code

/-- Wherever `FailAllPending` is to run, `FailAllPendingGroup` is to run after it. -/
def Paired : List Instr → Prop
  | [] => True
  | .failAllPending .chat _ _ :: code => GroupAhead code ∧ Paired code
  | _ :: code => Paired code

/-- The transport is stopped, and each table and queue is empty or emptied by the code. -/
structure Clears (s : State ρ) (code : List Instr) : Prop where
  stopped : s.running = false
  tables : ∀ kind, s.tables kind = [] ∨ ∃ status text, .failAllPending kind status text ∈ code
  queues : ∀ kind, s.queues kind = [] ∨ ∃ status text, .failQueued kind status text ∈ code

structure Control (s : State ρ) : Prop where
  count : s.pendingCount = s.total ∨ GroupAhead s.code
  paired : Paired s.code
  clearing : ∀ before after, s.code = before ++ .cleared :: after → Clears s before
  closed : s.closed = true → Clears s []
  stops : 0 < s.stops → s.running = false
  next : s.nextSequence ≠ 0

variable {code : List Instr}

theorem paired_append {code' : List Instr} (h : Paired code) (h' : Paired code') :
    Paired (code ++ code') := by
  induction code with
  | nil => exact h'
  | cons instr code ih =>
    unfold Paired at h
    split at h
    · cases ‹_ = _›
    · next heq =>
      cases heq
      obtain ⟨⟨status, text, hmem⟩, h⟩ := h
      exact ⟨⟨status, text, List.mem_append_left _ hmem⟩, ih h⟩
    · next hchat heq =>
      cases heq
      change Paired (instr :: (code ++ code'))
      unfold Paired
      split
      · cases ‹_ = _›
      · next heq =>
        simp_all
      · next heq =>
        cases heq
        exact ih h

theorem paired_of_plain (h : ∀ instr ∈ code, instr.plain = true) : Paired code := by
  induction code with
  | nil => trivial
  | cons instr code ih =>
    have hplain := h instr mem_cons_self
    have hrest := ih fun i hi => h i (List.mem_cons_of_mem _ hi)
    cases instr with
    | failAllPending kind status text => cases hplain
    | _ => exact hrest

theorem Clears.mono {code' : List Instr} (h : Clears s code) (hsub : ∀ i ∈ code, i ∈ code') :
    Clears s code' := by
  refine ⟨h.stopped, fun kind => (h.tables kind).imp_right ?_, fun kind => (h.queues kind).imp_right ?_⟩
  · exact fun ⟨status, text, hmem⟩ => ⟨status, text, hsub _ hmem⟩
  · exact fun ⟨status, text, hmem⟩ => ⟨status, text, hsub _ hmem⟩

theorem Clears.quiet (h : Clears s code) (hq : s.Quiet s') : Clears s' code :=
  ⟨hq.running.trans h.stopped, fun kind => (h.tables kind).imp_left (hq.tables h.stopped kind),
    fun kind => (h.queues kind).imp_left (hq.queues h.stopped kind)⟩

theorem eq_append_of_pushed {pushed before after : List Instr}
    (hpushed : ∀ instr ∈ pushed, instr ≠ .cleared) (h : pushed ++ code = before ++ .cleared :: after) :
    ∃ rest, before = pushed ++ rest ∧ code = rest ++ .cleared :: after := by
  induction pushed generalizing before with
  | nil => exact ⟨before, rfl, h⟩
  | cons instr pushed ih =>
    cases before with
    | nil =>
      cases h
      exact absurd rfl (hpushed _ mem_cons_self)
    | cons i before =>
      rw [cons_append, cons_append] at h
      injection h with hi h
      obtain ⟨rest, rfl, hcode⟩ := ih (fun i hi => hpushed i (List.mem_cons_of_mem _ hi)) h
      exact ⟨rest, by rw [hi, cons_append], hcode⟩

theorem ne_cleared_of_plain {instr : Instr} (h : instr.plain = true) : instr ≠ .cleared := by
  rintro rfl
  cases h

namespace Control

theorem quiet (h : Control s) (hq : s.Quiet s') : Control s' := by
  obtain ⟨pushed, hcode, hplain⟩ := hq.code
  refine ⟨?_, ?_, fun before after hsplit => ?_, fun hclosed => ?_, fun hstops => ?_, hq.next h.next⟩
  · refine h.count.imp hq.count fun hahead => ?_
    obtain ⟨status, text, hmem⟩ := hahead
    exact ⟨status, text, by simp_all⟩
  · rw [hcode]
    exact paired_append (paired_of_plain hplain) h.paired
  · rw [hcode] at hsplit
    obtain ⟨rest, rfl, hrest⟩ := eq_append_of_pushed
      (fun instr hi => ne_cleared_of_plain (hplain instr hi)) hsplit
    exact ((h.clearing rest after hrest).quiet hq).mono fun i hi => mem_append_right _ hi
  · rw [hq.closed] at hclosed
    exact (h.closed hclosed).quiet hq
  · rw [hq.stops] at hstops
    exact hq.running.trans (h.stops hstops)

theorem stopped (h : Control s) (connected : Bool) :
    Control { s with connected := connected, running := false } :=
  ⟨h.count, h.paired, fun before after hsplit => { h.clearing before after hsplit with stopped := rfl },
    fun hclosed => { h.closed hclosed with stopped := rfl }, fun _ => rfl, h.next⟩

theorem setConnected (h : Control s) (connected : Bool) :
    Control { s with connected := connected } :=
  ⟨h.count, h.paired, fun before after hsplit => { h.clearing before after hsplit with },
    fun hclosed => { h.closed hclosed with }, h.stops, h.next⟩

theorem push (h : Control s) {code : List Instr} (hpaired : Paired code)
    (hcode : ∀ instr ∈ code, instr ≠ .cleared) : Control (s.push code) := by
  refine ⟨h.count.imp_right ?_, paired_append hpaired h.paired, fun before after hsplit => ?_,
    fun hclosed => { h.closed hclosed with }, h.stops, h.next⟩
  · exact fun ⟨status, text, hmem⟩ => ⟨status, text, mem_append_right _ hmem⟩
  · obtain ⟨rest, rfl, hrest⟩ := eq_append_of_pushed hcode hsplit
    exact { (h.clearing rest after hrest).mono fun i hi => mem_append_right _ hi with }

theorem pushClearing (h : Control s) (hstopped : s.running = false) {code : List Instr}
    (status : Status) (text : String) (hcode : ∀ instr ∈ code, instr.plain = true) :
    Control (s.push (State.failAll status text (State.failAllQueued status text (code ++ [.cleared])))) := by
  let before := State.failAll status text (State.failAllQueued status text code)
  have hbefore : ∀ instr ∈ before, instr ≠ .cleared := by
    intro instr hinstr
    rcases mem_cons.1 hinstr with rfl | hinstr
    · exact Instr.noConfusion
    rcases mem_cons.1 hinstr with rfl | hinstr
    · exact Instr.noConfusion
    rcases mem_cons.1 hinstr with rfl | hinstr
    · exact Instr.noConfusion
    rcases mem_cons.1 hinstr with rfl | hinstr
    · exact Instr.noConfusion
    exact ne_cleared_of_plain (hcode instr hinstr)
  have hclears : Clears s before := by
    refine ⟨hstopped, fun kind => .inr ⟨status, text, ?_⟩, fun kind => .inr ⟨status, text, ?_⟩⟩
    · cases kind <;> simp [before, State.failAll, State.failAllQueued]
    · cases kind <;> simp [before, State.failAll, State.failAllQueued]
  have hrest : Paired code := paired_of_plain hcode
  have hpaired : Paired (before ++ [.cleared]) :=
    paired_append ⟨⟨status, text, mem_cons_self⟩, hrest⟩ trivial
  have hall : State.failAll status text (State.failAllQueued status text (code ++ [.cleared])) =
      before ++ [.cleared] := rfl
  rw [hall]
  refine ⟨h.count.imp_right ?_, paired_append hpaired h.paired, fun before' after hsplit => ?_,
    fun hclosed => { h.closed hclosed with }, h.stops, h.next⟩
  · exact fun ⟨status, text, hmem⟩ => ⟨status, text, mem_append_right _ hmem⟩
  · change before ++ [.cleared] ++ s.code = _ at hsplit
    rw [List.append_assoc] at hsplit
    obtain ⟨rest, rfl, hrest⟩ := eq_append_of_pushed hbefore hsplit
    cases rest with
    | nil =>
      rw [List.append_nil]
      exact { hclears with }
    | cons instr rest =>
      injection hrest with hinstr hrest
      refine { (h.clearing rest after hrest).mono fun i hi => ?_ with }
      exact mem_append_right _ (List.mem_cons_of_mem _ hi)

theorem stopInLoop (h : Control s) (hstopped : s.running = false) : Control s.stopInLoop := by
  refine @pushClearing ρ s h hstopped [.setDisconnected, .outside] _ _ fun instr hinstr => ?_
  rcases mem_cons.1 hinstr with rfl | hinstr
  · rfl
  · rw [mem_singleton.1 hinstr]
    rfl

theorem handleConnection (h : Control s) (connected : Bool) :
    Control (s.handleConnection connected) := by
  cases connected with
  | true =>
    refine (h.setConnected true).push ?_ ?_
    · exact trivial
    · simp
  | false =>
    refine @pushClearing ρ _ (h.stopped false) rfl [.outside] _ _ fun instr hinstr => ?_
    rw [mem_singleton.1 hinstr]
    rfl

theorem handleConnectError (h : Control s) (text : String) : Control (s.handleConnectError text) := by
  refine (h.stopped false).push ?_ ?_
  · exact trivial
  · simp [State.failAllQueued]

theorem handleMessage (h : Control s) (buffer : Buffer) : Control (s.handleMessage w buffer).1 := by
  unfold State.handleMessage
  dsimp only
  split
  · exact h
  · exact h.push trivial (by simp)
  · exact h.push ⟨⟨_, _, mem_cons_self⟩, trivial⟩ (by simp [State.failAll])

theorem submit (h : Control s) (request : Request) (callback : Bool) :
    Control (s.submit request callback) := by
  have hnext : Control { s with nextId := s.nextId + 1 } :=
    ⟨h.count, h.paired, fun before after hsplit => { h.clearing before after hsplit with },
      fun hclosed => { h.closed hclosed with }, h.stops, h.next⟩
  exact hnext.push trivial (by simp)

theorem call (h : Control s) (c : Call) : Control (s.call c) := by
  cases c with
  | forward request callback =>
    unfold State.call
    dsimp only
    split
    · exact h.submit request callback
    · exact h
  | connection connected => exact h.handleConnection connected
  | connectError text => exact h.handleConnectError text
  | stop =>
    unfold State.call State.stop
    dsimp only
    split
    · exact (h.stopped s.connected).stopInLoop rfl
    · exact h

theorem paired_tail {instr : Instr} (h : Paired (instr :: code)) : Paired code := by
  unfold Paired at h
  split at h
  · cases ‹_ = _›
  · next heq =>
    cases heq
    exact h.2
  · next heq =>
    cases heq
    exact h

theorem pop {instr : Instr} (h : Control (s.push [instr])) (hcode : s'.code = s.code)
    (hrunning : s'.running = s.running) (hclosed : s'.closed = s.closed) (hstops : s'.stops = s.stops)
    (htables : ∀ kind, s.tables kind = [] ∨ (∃ status text, instr = .failAllPending kind status text) →
      s'.tables kind = [])
    (hqueues : ∀ kind, s.queues kind = [] ∨ (∃ status text, instr = .failQueued kind status text) →
      s'.queues kind = [])
    (hcount : s'.pendingCount = s'.total ∨ GroupAhead s.code)
    (hnext : s'.nextSequence = s.nextSequence) : Control s' := by
  have hkept : ∀ code, Clears s (instr :: code) → Clears s' code := by
    intro code hclears
    refine ⟨hrunning.trans hclears.stopped, fun kind => ?_, fun kind => ?_⟩
    · rcases hclears.tables kind with hempty | ⟨status, text, hmem⟩
      · exact .inl (htables kind (.inl hempty))
      · rcases mem_cons.1 hmem with heq | hmem
        · exact .inl (htables kind (.inr ⟨status, text, heq.symm⟩))
        · exact .inr ⟨status, text, hmem⟩
    · rcases hclears.queues kind with hempty | ⟨status, text, hmem⟩
      · exact .inl (hqueues kind (.inl hempty))
      · rcases mem_cons.1 hmem with heq | hmem
        · exact .inl (hqueues kind (.inr ⟨status, text, heq.symm⟩))
        · exact .inr ⟨status, text, hmem⟩
  refine ⟨by rw [hcode]; exact hcount, by rw [hcode]; exact paired_tail h.paired,
    fun before after hsplit => ?_, fun hc => ?_, fun hs => ?_, by rw [hnext]; exact h.next⟩
  · rw [hcode] at hsplit
    have hclears := h.clearing (instr :: before) after (by rw [cons_append, ← hsplit]; rfl)
    exact hkept before { hclears with }
  · rw [hclosed] at hc
    exact hkept [] ({ h.closed hc with : Clears s [] }.mono fun i hi => absurd hi not_mem_nil)
  · rw [hstops] at hs
    exact hrunning.trans (h.stops hs)

theorem ahead_of_plain {instr : Instr} (h : Control (s.push [instr])) (hplain : instr.plain = true) :
    s.pendingCount = s.total ∨ GroupAhead s.code := by
  refine h.count.imp_right fun ⟨status, text, hmem⟩ => ⟨status, text, ?_⟩
  rcases mem_cons.1 hmem with rfl | hmem
  · cases hplain
  · exact hmem

theorem popPlain {instr : Instr} (h : Control (s.push [instr])) (hplain : instr.plain = true)
    (hqueue : ∀ kind status text, instr ≠ .failQueued kind status text) : Control s := by
  refine h.pop rfl rfl rfl rfl (fun kind hkind => ?_) (fun kind hkind => ?_) (h.ahead_of_plain hplain)
    rfl
  · refine hkind.resolve_right fun ⟨status, text, heq⟩ => ?_
    rw [heq] at hplain
    cases hplain
  · exact hkind.resolve_right fun ⟨status, text, heq⟩ => hqueue kind status text heq

theorem setTable_eq_nil {kind k : Kind} (h : s.tables k = [] ∨ k = kind) :
    (s.setTable kind []).tables k = [] := by
  change (if k = kind then [] else s.tables k) = []
  grind

theorem setQueue_eq_nil {kind k : Kind} (h : s.queues k = [] ∨ k = kind) :
    (s.setQueue kind []).queues k = [] := by
  change (if k = kind then [] else s.queues k) = []
  grind

theorem failAllPending {kind : Kind} {status : Status} {text : String}
    (h : Control (s.push [.failAllPending kind status text])) (order : Table) :
    Control (s.failAllPending kind status text order) := by
  have htables : ∀ k, s.tables k = [] ∨ (∃ status' text', Instr.failAllPending kind status text =
      .failAllPending k status' text') → (s.setTable kind []).tables k = [] := by
    intro k hk
    refine setTable_eq_nil (hk.imp_right fun ⟨status', text', heq⟩ => ?_)
    injection heq with heq
    exact heq.symm
  have hqueues : ∀ k, s.queues k = [] ∨ (∃ status' text', Instr.failAllPending kind status text =
      .failQueued k status' text') → s.queues k = [] :=
    fun k hk => hk.resolve_right fun ⟨_, _, heq⟩ => by cases heq
  cases kind with
  | chat =>
    unfold State.failAllPending
    dsimp only
    split
    · next hempty =>
      refine h.pop rfl rfl rfl rfl (fun k hk => ?_) hqueues (.inr h.paired.1) rfl
      rcases hk with hk | ⟨_, _, heq⟩
      · exact hk
      · injection heq with heq
        rw [← heq]
        exact List.isEmpty_iff.1 hempty
    · have hpop : Control { s.setTable .chat [] with pendingCount := 0 } :=
        h.pop rfl rfl rfl rfl htables hqueues (.inr h.paired.1) rfl
      exact hpop.push trivial (by simp)
  | group =>
    have hpop : Control { s.setTable .group [] with pendingCount := (s.tables .chat).length } :=
      h.pop rfl rfl rfl rfl htables hqueues (.inl rfl) rfl
    exact hpop.push trivial (by simp)

theorem exec {instr : Instr} (h : Control (s.push [instr])) (found : Found) :
    Control (s.exec w found instr) := by
  by_cases hplain : instr.plain = true
  · by_cases hqueue : ∃ kind status text, instr = .failQueued kind status text
    · obtain ⟨kind, status, text, rfl⟩ := hqueue
      have hpop : Control (s.setQueue kind []) := by
        refine h.pop rfl rfl rfl rfl (fun k hk => ?_) (fun k hk => ?_) (h.ahead_of_plain hplain)
          rfl
        · exact hk.resolve_right fun ⟨_, _, heq⟩ => by cases heq
        · refine setQueue_eq_nil (hk.imp_right fun ⟨status', text', heq⟩ => ?_)
          simp_all
      exact hpop.push trivial (by simp)
    · have hpop : Control s := h.popPlain hplain fun kind status text heq =>
        hqueue ⟨kind, status, text, heq⟩
      exact hpop.quiet (.exec s found hplain)
  · cases instr with
    | failAllPending kind status text => exact h.failAllPending found.order
    | cleared =>
      have hclears := h.clearing [] s.code rfl
      have hahead : s.pendingCount = s.total ∨ GroupAhead s.code := by
        refine h.count.imp_right fun ⟨status, text, hmem⟩ => ⟨status, text, ?_⟩
        rcases mem_cons.1 hmem with heq | hmem
        · cases heq
        · exact hmem
      have hpop : Control s := h.pop rfl rfl rfl rfl
        (fun k hk => hk.resolve_right fun ⟨_, _, heq⟩ => by cases heq)
        (fun k hk => hk.resolve_right fun ⟨_, _, heq⟩ => by cases heq) hahead rfl
      exact ⟨hpop.count, hpop.paired,
        fun before after hsplit => { hpop.clearing before after hsplit with },
        fun _ => { hclears with }, hpop.stops, hpop.next⟩
    | _ => exact absurd rfl hplain

end Control

theorem Step.control (h : Control s) (hs : Step w s label s') : Control s' := by
  cases hs with
  | stopElsewhere hstop =>
    obtain ⟨-, rfl⟩ := stop_eq_some hstop
    have hstopped := h.stopped s.connected
    exact ⟨hstopped.count, hstopped.paired,
      fun before after hsplit => { hstopped.clearing before after hsplit with },
      fun hclosed => { hstopped.closed hclosed with }, fun _ => rfl, hstopped.next⟩
  | loop event hidle hcan =>
    cases event with
    | forward request callback => exact h.submit request callback
    | message buffer => exact h.handleMessage buffer
    | timeout timer => exact h.quiet (.handleTimeout s timer)
    | connection connected => exact h.handleConnection connected
    | connectError text => exact h.handleConnectError text
    | stop =>
      have hstops : Control { s with stops := s.stops - 1 } :=
        ⟨h.count, h.paired, fun before after hsplit => { h.clearing before after hsplit with },
          fun hclosed => { h.closed hclosed with }, fun _ => h.stops hcan, h.next⟩
      exact hstops.stopInLoop (h.stops hcan)
  | @exec instr code found hcode hinside hfits =>
    rw [← push_pop hcode] at h
    exact h.exec found
  | call c hcode => exact h.call c
  | @back code hcode =>
    rw [← push_pop hcode] at h
    exact h.popPlain rfl fun kind status text heq => by cases heq

/-! ## The end of a handler that clears -/

def Label.clears : Label → Bool
  | .loop .stop => true
  | .loop (.connection connected) => !connected
  | .call (.connection connected) => !connected
  | _ => false

def Ended (s : State ρ) : Prop := s.closed = true ∨ Instr.cleared ∈ s.code

namespace Ended

theorem push (h : Ended s) (code : List Instr) : Ended (s.push code) :=
  h.imp_right fun hmem => mem_append_right code hmem

theorem handleConnection (h : Ended s) (connected : Bool) : Ended (s.handleConnection connected) := by
  cases connected with
  | false => exact h.imp_right fun hmem => mem_append_right _ hmem
  | true => exact h.imp_right fun hmem => mem_append_right _ hmem

theorem handleMessage (h : Ended s) (buffer : Buffer) : Ended (s.handleMessage w buffer).1 := by
  unfold State.handleMessage
  dsimp only
  split
  · exact h
  · exact h.push _
  · exact h.push _

theorem quiet (h : Ended s) (hq : s.Quiet s') : Ended s' := by
  obtain ⟨pushed, hcode, -⟩ := hq.code
  refine h.imp (fun hclosed => hq.closed.trans hclosed) fun hmem => ?_
  simp_all

theorem exec {instr : Instr} (h : Ended (s.push [instr])) (found : Found) :
    Ended (s.exec w found instr) := by
  have hrest : instr ≠ .cleared → Ended s := fun hne => by
    refine h.imp_right fun hmem => ?_
    rcases mem_cons.1 hmem with heq | hmem
    · exact absurd heq.symm hne
    · exact hmem
  by_cases hplain : instr.plain = true
  · exact (hrest (ne_cleared_of_plain hplain)).quiet (.exec s found hplain)
  · cases instr with
    | failAllPending kind status text =>
      have hended := hrest Instr.noConfusion
      cases kind with
      | chat =>
        change Ended (s.failAllPending .chat status text found.order)
        unfold State.failAllPending
        dsimp only
        split
        · exact hended
        · exact hended.imp_right fun hmem => mem_append_right _ hmem
      | group => exact hended.imp_right fun hmem => mem_append_right _ hmem
    | cleared => exact .inl rfl
    | _ => exact absurd rfl hplain

theorem step (h : Ended s) (hs : Step w s label s') : Ended s' := by
  cases hs with
  | stopElsewhere hstop =>
    obtain ⟨-, rfl⟩ := stop_eq_some hstop
    exact h
  | loop event hidle hcan =>
    cases event with
    | forward request callback => exact h.imp_right fun hmem => mem_append_right _ hmem
    | message buffer => exact h.handleMessage buffer
    | timeout timer => exact h.quiet (.handleTimeout s timer)
    | connection connected => exact h.handleConnection connected
    | connectError text => exact h.imp_right fun hmem => mem_append_right _ hmem
    | stop => exact h.imp_right fun hmem => mem_append_right _ hmem
  | @exec instr code found hcode hinside hfits =>
    rw [← push_pop hcode] at h
    exact h.exec found
  | call c hcode =>
    cases c with
    | forward request callback =>
      unfold State.call
      dsimp only
      split
      · exact h.imp_right fun hmem => mem_append_right _ hmem
      · exact h
    | connection connected => exact h.handleConnection connected
    | connectError text => exact h.imp_right fun hmem => mem_append_right _ hmem
    | stop =>
      unfold State.call State.stop
      dsimp only
      split
      · exact h.imp_right fun hmem => mem_append_right _ hmem
      · exact h
  | @back code hcode =>
    rw [← push_pop hcode] at h
    exact h.exec (w := w) ⟨false, false, []⟩

end Ended

theorem Step.ended (hs : Step w s label s') (h : label.clears = true) : Ended s' := by
  have hstop : ∀ t : State ρ, Instr.cleared ∈ t.stopInLoop.code := fun t =>
    List.mem_append_left _ (by simp [State.failAll, State.failAllQueued])
  have hconnection : ∀ t : State ρ, Instr.cleared ∈ (t.handleConnection false).code := fun t =>
    List.mem_append_left _ (by simp [State.failAll, State.failAllQueued])
  cases hs with
  | loop event hidle hcan =>
    cases event with
    | connection connected =>
      cases connected with
      | false => exact .inr (hconnection s)
      | true => cases h
    | stop => exact .inr (hstop _)
    | _ => cases h
  | call c hcode =>
    cases c with
    | connection connected =>
      cases connected with
      | false => exact .inr (hconnection s)
      | true => cases h
    | _ => cases h
  | _ => cases h

theorem ended_of_run {ls : List Label} (hrun : Run (Step w) .started ls s) (h : ∃ l ∈ ls, l.clears = true) :
    Ended s := by
  refine Run.history (I := fun ls s => (∃ l ∈ ls, l.clears = true) → Ended s)
    (fun ls s l s' ih hs hclears => ?_) hrun (fun ⟨_, hmem, _⟩ => absurd hmem not_mem_nil) h
  obtain ⟨l', hmem, hl'⟩ := hclears
  rcases List.mem_append.1 hmem with hmem | hmem
  · exact (ih ⟨l', hmem, hl'⟩).step hs
  · rw [mem_singleton.1 hmem] at hl'
    exact hs.ended hl'

end TinyImx.Gateway.PeerTransport
