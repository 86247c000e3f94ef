import TinyImx.Gateway.PeerMoves

/-!
# Reads of a peer connection

A read is decoded and the packets are handled one after another, with whatever the callbacks do in
between; where the bytes meet a framing error, the packets decoded from the same read are dropped.  So
what is completed with a response are the requests of the packets decoded from the reads before.
-/

namespace TinyImx.Gateway.PeerTransport

open Net Protocol

variable {ρ : Type} {w : Wire ρ} {s s' t u : State ρ} {code : List Instr}

/-! ## A handler in progress -/

def Label.inside : Label → Bool
  | .exec _ _ => true
  | .call _ => true
  | .back => true
  | _ => false

def Inside (w : Wire ρ) (s : State ρ) (label : Label) (s' : State ρ) : Prop :=
  Step w s label s' ∧ label.inside = true

def Finishes (w : Wire ρ) (s s' : State ρ) : Prop :=
  s'.code = [] ∧ ∃ ls, Run (Inside w) s ls s'

namespace State

def under (s : State ρ) (code : List Instr) : State ρ := { s with code := s.code ++ code }

theorem complete_under (s : State ρ) (code : List Instr) (id : ℕ) (callback : Bool) (cause : Cause)
    (result : Result ρ) :
    (s.under code).complete id callback cause result =
      (s.complete id callback cause result).under code := by
  cases callback <;> rfl

theorem handleResponse_under (s : State ρ) (code : List Instr) (kind : Kind) (packet : Packet) :
    (s.under code).handleResponse w kind packet = (s.handleResponse w kind packet).under code := by
  have htables : (s.under code).tables = s.tables := rfl
  unfold State.handleResponse
  rw [htables]
  cases (s.tables kind).find packet.seq with
  | none => rfl
  | some pending =>
    exact complete_under (((s.setTable kind ((s.tables kind).erase packet.seq)).storeCount).cancel
      pending.timeoutTimer) code _ _ _ _

theorem handlePacket_under (s : State ρ) (code : List Instr) (packet : Packet) :
    (s.under code).handlePacket w packet = (s.handlePacket w packet).under code := by
  unfold State.handlePacket
  split
  · exact handleResponse_under s code .chat packet
  · split
    · exact handleResponse_under s code .group packet
    · rfl

theorem takeSequence_under (s : State ρ) (code : List Instr) :
    (s.under code).takeSequence = (s.takeSequence.1, s.takeSequence.2.under code) := by
  have hused : (s.under code).used = s.used := rfl
  unfold State.takeSequence
  rw [hused]
  rfl

theorem forwardInLoop_under (s : State ρ) (code : List Instr) (submission : Submission)
    (connectionUsable timerArmed : Bool) :
    (s.under code).forwardInLoop w submission connectionUsable timerArmed =
      (s.forwardInLoop w submission connectionUsable timerArmed).under code := by
  have hrunning : (s.under code).running = s.running := rfl
  have hconnected : (s.under code).connected = s.connected := rfl
  unfold State.forwardInLoop
  rw [hrunning, hconnected, takeSequence_under]
  cases s.running with
  | false => exact complete_under s code _ _ _ _
  | true =>
    by_cases husable : (!s.connected || !connectionUsable) = true
    · rw [if_pos husable, if_pos husable]
      rfl
    rw [if_neg husable, if_neg husable]
    cases w.serialize submission.request with
    | error text => exact complete_under s code _ _ _ _
    | ok body =>
      dsimp only
      by_cases hzero : s.takeSequence.1 = 0
      · rw [if_pos hzero, if_pos hzero]
        exact complete_under s.takeSequence.2 code _ _ _ _
      rw [if_neg hzero, if_neg hzero]
      rcases encode w.maxBodySize ⟨submission.request.type, 0, s.takeSequence.1, body⟩ (.make 1024)
        with ⟨text | _, buffer⟩
      · exact complete_under s.takeSequence.2 code _ _ _ _
      · rfl

theorem failAllPending_under (s : State ρ) (code : List Instr) (kind : Kind) (status : Status)
    (text : String) (order : Table) :
    (s.under code).failAllPending kind status text order =
      (s.failAllPending kind status text order).under code := by
  cases kind with
  | chat =>
    have htables : (s.under code).tables = s.tables := rfl
    unfold State.failAllPending
    rw [htables]
    cases (s.tables .chat).isEmpty <;> rfl
  | group => rfl

theorem exec_under (s : State ρ) (code : List Instr) (found : Found) (instr : Instr) :
    (s.under code).exec w found instr = (s.exec w found instr).under code := by
  cases instr with
  | failAllPending kind status text => exact failAllPending_under s code kind status text _
  | failEachPending kind status text entries =>
    cases entries with
    | nil => rfl
    | cons e entries =>
      exact complete_under ((s.push [.failEachPending kind status text entries]).cancel
        e.2.timeoutTimer) code _ _ _ _
  | failEachQueued status text submissions =>
    cases submissions with
    | nil => rfl
    | cons submission submissions =>
      exact complete_under (s.push [.failEachQueued status text submissions]) code _ _ _ _
  | flushEach submissions => cases submissions <;> rfl
  | forwardInLoop submission => exact forwardInLoop_under s code submission _ _
  | packets packets =>
    cases packets with
    | nil => rfl
    | cons packet packets => exact handlePacket_under (s.push [.packets packets]) code packet
  | _ => rfl

theorem call_under (s : State ρ) (code : List Instr) (c : Call) :
    (s.under code).call c = (s.call c).under code := by
  cases c with
  | forward request callback =>
    have hrunning : (s.under code).running = s.running := rfl
    unfold State.call
    rw [hrunning]
    dsimp only
    cases request.valid && s.running <;> rfl
  | connection connected => cases connected <;> rfl
  | connectError text => rfl
  | stop =>
    have hrunning : (s.under code).running = s.running := rfl
    unfold State.call State.stop
    rw [hrunning]
    cases s.running <;> rfl

end State

theorem Inside.under {label : Label} (h : Inside w s label s') (code : List Instr) :
    Inside w (s.under code) label (s'.under code) := by
  obtain ⟨hs, hinside⟩ := h
  cases hs with
  | stopElsewhere => cases hinside
  | loop => cases hinside
  | @exec instr rest found hcode hne hfits =>
    have hcode' : (s.under code).code = instr :: (rest ++ code) := by
      change s.code ++ code = _
      rw [hcode]
      rfl
    have hstep := @Step.exec ρ w (s.under code) instr (rest ++ code) found hcode' hne
      (by cases instr <;> exact hfits)
    have hexec := @State.exec_under ρ w { s with code := rest } code found instr
    exact ⟨hexec ▸ hstep, rfl⟩
  | @call rest c hcode =>
    have hcode' : (s.under code).code = .outside :: (rest ++ code) := by
      change s.code ++ code = _
      rw [hcode]
      rfl
    rw [← State.call_under]
    exact ⟨.call c hcode', rfl⟩
  | @back rest hcode =>
    have hcode' : (s.under code).code = .outside :: (rest ++ code) := by
      change s.code ++ code = _
      rw [hcode]
      rfl
    exact ⟨.back hcode', rfl⟩

theorem Inside.of_under {label : Label} (h : Inside w (s.under code) label s') (hne : s.code ≠ []) :
    ∃ t, Inside w s label t ∧ s' = t.under code := by
  obtain ⟨instr, rest, hrest⟩ := List.exists_cons_of_ne_nil hne
  have hcode : (s.under code).code = instr :: (rest ++ code) := by
    change s.code ++ code = _
    rw [hrest]
    rfl
  obtain ⟨hs, hinside⟩ := h
  cases hs with
  | stopElsewhere => cases hinside
  | loop => cases hinside
  | @exec instr' rest' found hcode' hne' hfits =>
    obtain ⟨rfl, rfl⟩ := List.cons.inj (hcode.symm.trans hcode')
    refine ⟨_, ⟨.exec found hrest hne' (by cases instr <;> exact hfits), rfl⟩, ?_⟩
    exact @State.exec_under ρ w { s with code := rest } code found instr
  | @call rest' c hcode' =>
    obtain ⟨rfl, rfl⟩ := List.cons.inj (hcode.symm.trans hcode')
    exact ⟨_, ⟨.call c hrest, rfl⟩, State.call_under s code c⟩
  | @back rest' hcode' =>
    obtain ⟨rfl, rfl⟩ := List.cons.inj (hcode.symm.trans hcode')
    exact ⟨_, ⟨.back hrest, rfl⟩, rfl⟩

theorem under_run {ls : List Label} (h : Run (Inside w) s ls t) (code : List Instr) :
    Run (Inside w) (s.under code) ls (t.under code) := by
  induction h with
  | nil => exact .nil _
  | snoc _ hs ih => exact ih.snoc (hs.under code)

theorem of_under_run {ls : List Label} (h : Run (Inside w) (s.under code) ls u) :
    (∃ t, (∃ ls, Run (Inside w) s ls t) ∧ t.code ≠ [] ∧ u = t.under code) ∨
      ∃ t, Finishes w s t ∧ ∃ ls, Run (Inside w) (t.under code) ls u := by
  generalize hstart : s.under code = start at h
  induction h with
  | nil =>
    subst hstart
    by_cases hidle : s.code = []
    · exact .inr ⟨s, ⟨hidle, _, .nil _⟩, _, .nil _⟩
    · exact .inl ⟨s, ⟨_, .nil _⟩, hidle, rfl⟩
  | snoc _ hs ih =>
    rcases ih with ⟨t, ⟨ls, hrun⟩, hne, rfl⟩ | ⟨t, hfinishes, ls, hrun⟩
    · obtain ⟨t', ht', rfl⟩ := hs.of_under hne
      by_cases hidle : t'.code = []
      · exact .inr ⟨t', ⟨hidle, _, hrun.snoc ht'⟩, _, .nil _⟩
      · exact .inl ⟨t', ⟨_, hrun.snoc ht'⟩, hidle, rfl⟩
    · exact .inr ⟨t, hfinishes, _, hrun.snoc hs⟩

theorem finishes_under : Finishes w (s.under code) u ↔
    ∃ t, Finishes w s t ∧ Finishes w (t.under code) u := by
  constructor
  · rintro ⟨hidle, ls, hrun⟩
    rcases of_under_run hrun with ⟨t, -, hne, rfl⟩ | ⟨t, hfinishes, hrest⟩
    · exact absurd (List.append_eq_nil_iff.1 hidle).1 hne
    · exact ⟨t, hfinishes, hidle, hrest⟩
  · rintro ⟨t, ⟨-, ls, hrun⟩, hidle, ls', hrun'⟩
    exact ⟨hidle, _, (under_run hrun code).append hrun'⟩

/-! ## Handling packets -/

theorem finishes_idle (hidle : s.code = []) : Finishes w s u ↔ u = s := by
  constructor
  · rintro ⟨-, ls, hrun⟩
    rcases hrun.eq_or_head with rfl | ⟨label, t, -, ⟨hs, hinside⟩, -⟩
    · rfl
    · cases hs with
      | stopElsewhere => cases hinside
      | loop => cases hinside
      | exec _ hcode => rw [hidle] at hcode; cases hcode
      | call _ hcode => rw [hidle] at hcode; cases hcode
      | back hcode => rw [hidle] at hcode; cases hcode
  · rintro rfl
    exact ⟨hidle, _, .nil _⟩

theorem inside_exec {instr : Instr} (found : Found) (hne : instr ≠ .outside)
    (hfits : s.fits found instr) :
    Inside w (s.push [instr]) (.exec instr found) (s.exec w found instr) :=
  ⟨.exec found rfl hne hfits, rfl⟩

theorem finishes_push_packets (packets : List Packet) :
    Finishes w (s.push [.packets packets]) u ↔
      Finishes w (s.exec w ⟨false, false, []⟩ (.packets packets)) u := by
  have hexec (found : Found) : s.exec w found (.packets packets) =
      s.exec w ⟨false, false, []⟩ (.packets packets) := by
    cases packets <;> rfl
  constructor
  · rintro ⟨hidle, ls, hrun⟩
    rcases hrun.eq_or_head with rfl | ⟨label, t, ms, ⟨hs, hinside⟩, hrest⟩
    · cases hidle
    · cases hs with
      | stopElsewhere => cases hinside
      | loop => cases hinside
      | @exec instr code found hcode hne hfits =>
        obtain ⟨rfl, rfl⟩ := List.cons.inj hcode
        rw [← hexec found]
        exact ⟨hidle, ms, hrest⟩
      | call _ hcode => cases hcode
      | back hcode => cases hcode
  · rintro ⟨hidle, ls, hrun⟩
    have hstep := @inside_exec ρ w s (.packets packets) ⟨false, false, []⟩ Instr.noConfusion trivial
    exact ⟨hidle, _, .cons hstep hrun⟩

inductive Handles (w : Wire ρ) : State ρ → List Packet → State ρ → Prop
  | nil (s : State ρ) : Handles w s [] s
  | cons {s t u : State ρ} {packet : Packet} {packets : List Packet}
      (h : Finishes w (s.handlePacket w packet) t) (hrest : Handles w t packets u) :
      Handles w s (packet :: packets) u

theorem handles_append {packets packets' : List Packet} : Handles w s (packets ++ packets') u ↔
    ∃ t, Handles w s packets t ∧ Handles w t packets' u := by
  induction packets generalizing s with
  | nil =>
    constructor
    · exact fun h => ⟨s, .nil s, h⟩
    · rintro ⟨t, ht, hu⟩
      cases ht
      exact hu
  | cons packet packets ih =>
    constructor
    · intro h
      cases h with
      | cons h hrest =>
        obtain ⟨t, ht, hu⟩ := ih.1 hrest
        exact ⟨t, .cons h ht, hu⟩
    · rintro ⟨t, ht, hu⟩
      cases ht with
      | cons h hrest => exact .cons h (ih.2 ⟨t, hrest, hu⟩)

theorem finishes_packets {packets : List Packet} (hidle : s.code = []) :
    Finishes w (s.push [.packets packets]) u ↔ Handles w s packets u := by
  induction packets generalizing s with
  | nil =>
    rw [finishes_push_packets]
    refine (finishes_idle hidle).trans ⟨fun h => ?_, fun h => ?_⟩
    · rw [h]
      exact .nil s
    · cases h
      rfl
  | cons packet packets ih =>
    have hpush : ∀ {t : State ρ}, t.code = [] → t.push [.packets packets] = t.under [.packets packets] :=
      fun {t} ht => by rw [State.push, State.under, ht]; rfl
    rw [finishes_push_packets]
    change Finishes w ((s.push [.packets packets]).handlePacket w packet) u ↔ _
    rw [hpush hidle, State.handlePacket_under, finishes_under]
    constructor
    · rintro ⟨t, ht, hu⟩
      rw [← hpush ht.1] at hu
      exact .cons ht ((ih ht.1).1 hu)
    · intro h
      cases h with
      | @cons _ t _ _ _ ht hrest =>
        refine ⟨t, ht, ?_⟩
        rw [← hpush ht.1]
        exact (ih ht.1).2 hrest

/-! ## A read with a framing error -/

def Event.decoded : Event ρ → Option (ℕ × ρ)
  | .completed id (.response _ _) ⟨.ok, some response, _⟩ => some (id, response)
  | _ => none

def State.decoded (s : State ρ) : List (ℕ × ρ) := s.events.filterMap Event.decoded

def Instr.isPackets : Instr → Bool
  | .packets _ => true
  | _ => false

structure Silent (s s' : State ρ) : Prop where
  code : ∃ pushed, s'.code = pushed ++ s.code ∧ ∀ instr ∈ pushed, instr.isPackets = false
  decoded : s'.decoded = s.decoded

namespace Silent

theorem refl (s : State ρ) : Silent s s := ⟨⟨[], rfl, fun _ h => absurd h List.not_mem_nil⟩, rfl⟩

theorem trans (h : Silent s t) (h' : Silent t u) : Silent s u := by
  obtain ⟨pushed, hcode, hnone⟩ := h.code
  obtain ⟨pushed', hcode', hnone'⟩ := h'.code
  refine ⟨⟨pushed' ++ pushed, by rw [hcode', hcode, List.append_assoc], fun instr hinstr => ?_⟩,
    h'.decoded.trans h.decoded⟩
  grind

theorem push (s : State ρ) {code : List Instr} (h : ∀ instr ∈ code, instr.isPackets = false) :
    Silent s (s.push code) := ⟨⟨code, rfl, h⟩, rfl⟩

theorem failure (s : State ρ) (id : ℕ) (callback : Bool) (result : Result ρ) :
    Silent s (s.complete id callback .failure result) := by
  refine ⟨?_, ?_⟩
  · cases callback with
    | false => exact ⟨[], rfl, fun _ h => absurd h List.not_mem_nil⟩
    | true => exact ⟨[.outside], rfl, by simp [Instr.isPackets]⟩
  · change List.filterMap _ (s.events ++ _) = _
    rw [List.filterMap_append]
    exact List.append_nil _

theorem forwardInLoop (s : State ρ) (submission : Submission) (connectionUsable timerArmed : Bool) :
    Silent s (s.forwardInLoop w submission connectionUsable timerArmed) := by
  unfold State.forwardInLoop
  split
  · exact failure s _ _ _
  split
  · exact ⟨(refl s).code, rfl⟩
  split
  · exact failure s _ _ _
  dsimp only
  have htake : Silent s s.takeSequence.2 := ⟨(refl s).code, rfl⟩
  refine htake.trans ?_
  split
  · exact failure _ _ _ _
  split
  · exact failure _ _ _ _
  · refine ⟨⟨[.outside], rfl, by simp [Instr.isPackets]⟩, ?_⟩
    change List.filterMap _ (s.events ++ _) = _
    rw [List.filterMap_append]
    exact List.append_nil _

theorem exec (s : State ρ) (found : Found) {instr : Instr} (h : instr.isPackets = false) :
    Silent s (s.exec w found instr) := by
  cases instr with
  | outside => exact refl s
  | setDisconnected => exact ⟨(refl s).code, rfl⟩
  | failAllPending kind status text =>
    cases kind with
    | chat =>
      change Silent s (s.failAllPending .chat status text found.order)
      unfold State.failAllPending
      dsimp only
      split
      · exact ⟨(refl s).code, rfl⟩
      · exact ⟨⟨[_], rfl, by simp [Instr.isPackets]⟩, rfl⟩
    | group => exact ⟨⟨[_], rfl, by simp [Instr.isPackets]⟩, rfl⟩
  | failEachPending kind status text entries =>
    cases entries with
    | nil => exact refl s
    | cons e entries =>
      have hpush : Silent s ((s.push [.failEachPending kind status text entries]).cancel
          e.2.timeoutTimer) := ⟨⟨[_], rfl, by simp [Instr.isPackets]⟩, rfl⟩
      exact hpush.trans (failure _ _ _ _)
  | failQueued kind status text => exact ⟨⟨[_], rfl, by simp [Instr.isPackets]⟩, rfl⟩
  | failEachQueued status text submissions =>
    cases submissions with
    | nil => exact refl s
    | cons submission submissions =>
      exact (push s (by simp [Instr.isPackets])).trans (failure _ _ _ _)
  | flushQueued kind => exact ⟨⟨[_], rfl, by simp [Instr.isPackets]⟩, rfl⟩
  | flushEach submissions =>
    cases submissions with
    | nil => exact refl s
    | cons submission submissions => exact push s (by simp [Instr.isPackets])
  | forwardInLoop submission => exact forwardInLoop s submission _ _
  | packets packets => cases h
  | cleared => exact ⟨(refl s).code, rfl⟩

theorem stopInLoop (s : State ρ) : Silent s s.stopInLoop :=
  push s (by simp [State.failAll, State.failAllQueued, Instr.isPackets])

theorem call (s : State ρ) (c : Call) : Silent s (s.call c) := by
  cases c with
  | forward request callback =>
    unfold State.call
    dsimp only
    split
    · exact ⟨⟨[_], rfl, by simp [Instr.isPackets]⟩, rfl⟩
    · exact refl s
  | connection connected =>
    cases connected with
    | false => exact ⟨⟨[_, _, _, _, _, _], rfl, by simp [Instr.isPackets]⟩, rfl⟩
    | true => exact ⟨⟨[_, _, _], rfl, by simp [Instr.isPackets]⟩, rfl⟩
  | connectError text =>
    exact ⟨⟨[_, _, _], rfl, by simp [Instr.isPackets]⟩, rfl⟩
  | stop =>
    unfold State.call State.stop
    dsimp only
    split
    · exact ⟨(stopInLoop { s with running := false }).code, rfl⟩
    · exact refl s

theorem decoded_of_run {ls : List Label} (hrun : Run (Inside w) s ls t)
    (h : ∀ instr ∈ s.code, instr.isPackets = false) : t.decoded = s.decoded := by
  refine (Run.invariant
    (I := fun u => (∀ instr ∈ u.code, instr.isPackets = false) ∧ u.decoded = s.decoded)
    (fun u label v hu hs => ?_) hrun ⟨h, rfl⟩).2
  obtain ⟨hnone, hdecoded⟩ := hu
  have hcode : ∀ {instr : Instr} {code : List Instr}, u.code = instr :: code →
      Silent { u with code := code } v → (∀ i ∈ v.code, i.isPackets = false) ∧
        v.decoded = s.decoded := by
    intro instr code hcode hsilent
    obtain ⟨pushed, hpushed, hclean⟩ := hsilent.code
    refine ⟨fun i hi => ?_, hsilent.decoded.trans hdecoded⟩
    grind
  obtain ⟨hstep, hinside⟩ := hs
  cases hstep with
  | stopElsewhere => cases hinside
  | loop => cases hinside
  | @exec instr code found hcode' hne hfits =>
    exact hcode hcode' (exec _ found (hnone instr (by rw [hcode']; exact List.mem_cons_self)))
  | call c hcode' =>
    have hcall := call u c
    obtain ⟨pushed, hpushed, hclean⟩ := hcall.code
    refine ⟨fun i hi => ?_, hcall.decoded.trans hdecoded⟩
    rw [hpushed] at hi
    rcases List.mem_append.1 hi with hi | hi
    · exact hclean i hi
    · exact hnone i hi
  | @back code hcode' => exact hcode hcode' (refl _)

end Silent

/-! ## Failing every request -/

theorem exists_failEach (s : State ρ) (kind : Kind) (status : Status) (text : String)
    (entries : Table) : ∃ t, t.code = s.code ∧
      ∃ ls, Run (Inside w) (s.push [.failEachPending kind status text entries]) ls t := by
  induction entries generalizing s with
  | nil =>
    have hstep := @inside_exec ρ w s (.failEachPending kind status text []) ⟨false, false, []⟩
      Instr.noConfusion trivial
    exact ⟨s, rfl, _, .single hstep⟩
  | cons e entries ih =>
    let done : State ρ := { s.cancel e.2.timeoutTimer with
      events := s.events ++ [.completed e.2.id .failure (.failed status text)] }
    obtain ⟨t, hcode, ls, hrun⟩ := ih done
    have hstep := @inside_exec ρ w s (.failEachPending kind status text (e :: entries))
      ⟨false, false, []⟩ Instr.noConfusion trivial
    change Inside w _ _ (((s.push [.failEachPending kind status text entries]).cancel
      e.2.timeoutTimer).complete e.2.id e.2.callback .failure (.failed status text)) at hstep
    refine ⟨t, hcode, ?_⟩
    cases hcallback : e.2.callback with
    | false =>
      rw [hcallback] at hstep
      exact ⟨_, .cons hstep hrun⟩
    | true =>
      rw [hcallback] at hstep
      have hback : Inside w (((s.push [.failEachPending kind status text entries]).cancel
          e.2.timeoutTimer).complete e.2.id true .failure (.failed status text)) .back
          (done.push [.failEachPending kind status text entries]) := ⟨.back rfl, rfl⟩
      exact ⟨_, .cons hstep (.cons hback hrun)⟩

theorem exists_failAll (s : State ρ) (kind : Kind) (status : Status) (text : String) :
    ∃ t, t.code = s.code ∧
      ∃ ls, Run (Inside w) (s.push [.failAllPending kind status text]) ls t := by
  let found : Found := ⟨false, false, s.tables kind⟩
  have hstep := @inside_exec ρ w s (.failAllPending kind status text) found Instr.noConfusion
    (List.Perm.refl _)
  have hdone : ∃ t, t.code = s.code ∧
      ∃ ls, Run (Inside w) (s.failAllPending kind status text found.order) ls t := by
    cases kind with
    | chat =>
      unfold State.failAllPending
      dsimp only
      split
      · exact ⟨{ s with pendingCount := 0 }, rfl, _, .nil _⟩
      · exact exists_failEach { s.setTable .chat [] with pendingCount := 0 } _ _ _ _
    | group =>
      exact exists_failEach { s.setTable .group [] with pendingCount := (s.tables .chat).length }
        .group status text found.order
  obtain ⟨t, hcode, ls, hrun⟩ := hdone
  exact ⟨t, hcode, _, .cons hstep hrun⟩

theorem exists_finishes_failAll (hidle : s.code = []) (status : Status) (text : String) :
    ∃ t, Finishes w (s.push (State.failAll status text [.outside])) t := by
  obtain ⟨t, ht, ls, hrun⟩ := @exists_failAll ρ w
    (s.push [.failAllPending .group status text, .outside]) .chat status text
  have hcode : t.code = [.failAllPending .group status text, .outside] := by
    rw [ht, State.push, hidle]
    rfl
  obtain ⟨u, hu, ls', hrun'⟩ := @exists_failAll ρ w { t with code := [.outside] } .group status text
  rw [push_pop hcode] at hrun'
  exact ⟨_, rfl, _, (hrun.append hrun').snoc ⟨.back hu, rfl⟩⟩

/-! ## Reads -/

def decodeRead (w : Wire ρ) (buffer : Buffer) (chunk : List UInt8) : DecodeResult × Buffer :=
  decode w.maxBodySize (buffer.append chunk)

/-- The reads of a connection, with the bytes left over from the ones before.  A read with a framing
error closes the connection. -/
inductive Reads (w : Wire ρ) : State ρ → Buffer → List (List UInt8) → State ρ → Prop
  | done (s : State ρ) (buffer : Buffer) : Reads w s buffer [] s
  | read {s t u : State ρ} {buffer : Buffer} {chunk : List UInt8} {chunks : List (List UInt8)}
      (hok : (decodeRead w buffer chunk).1.status.error? = none)
      (h : Finishes w (s.handleMessage w (buffer.append chunk)).1 t)
      (hrest : Reads w t (s.handleMessage w (buffer.append chunk)).2 chunks u) :
      Reads w s buffer (chunk :: chunks) u
  | broken {s t : State ρ} {buffer : Buffer} {chunk : List UInt8} {chunks : List (List UInt8)}
      (herror : (decodeRead w buffer chunk).1.status.error? ≠ none)
      (h : Finishes w (s.handleMessage w (buffer.append chunk)).1 t) :
      Reads w s buffer (chunk :: chunks) t

def packetsBefore (w : Wire ρ) : Buffer → List (List UInt8) → List Packet
  | _, [] => []
  | buffer, chunk :: chunks =>
    let (result, rest) := decodeRead w buffer chunk
    if result.status.error? = none then result.packets ++ packetsBefore w rest chunks else []

theorem decode_status (maxBodySize : ℕ) (buffer : Buffer) :
    (decode maxBodySize buffer).1.status = ((decode maxBodySize buffer).1.status.error?).getD
      (idleStatus (decode maxBodySize buffer).1.packets) := by
  have hstatus := (decodeLoop_spec maxBodySize buffer []).2.1
  have hpair := decode_pair maxBodySize buffer
  have herror : (decode maxBodySize buffer).1.status.error? = _ := congrArg Prod.snd hpair
  have hpackets : (decode maxBodySize buffer).1.packets = _ := congrArg Prod.fst hpair
  rw [herror, hpackets]
  exact hstatus

theorem handleMessage_buffer (s : State ρ) (buffer : Buffer) :
    (s.handleMessage w buffer).2 = (decode w.maxBodySize buffer).2 := by
  unfold State.handleMessage
  dsimp only
  split <;> rfl

theorem handleMessage_of_ok {buffer : Buffer}
    (h : (decode w.maxBodySize buffer).1.status.error? = none) (hidle : s.code = []) :
    Finishes w (s.handleMessage w buffer).1 u ↔
      Handles w s (decode w.maxBodySize buffer).1.packets u := by
  have hstatus := decode_status w.maxBodySize buffer
  rw [h, Option.getD_none] at hstatus
  unfold State.handleMessage
  dsimp only
  cases hpackets : (decode w.maxBodySize buffer).1.packets with
  | nil =>
    rw [hstatus, hpackets]
    refine (finishes_idle hidle).trans ⟨fun h => ?_, fun h => ?_⟩
    · rw [h]
      exact .nil s
    · cases h
      rfl
  | cons packet packets =>
    rw [hstatus, hpackets]
    exact finishes_packets hidle

theorem handleMessage_of_error {buffer : Buffer}
    (h : (decode w.maxBodySize buffer).1.status.error? ≠ none) :
    ∃ text, (s.handleMessage w buffer).1 =
      s.push (State.failAll .protocolError text [.outside]) := by
  unfold State.handleMessage
  dsimp only
  split
  · next hstatus => rw [hstatus] at h; exact absurd rfl h
  · next hstatus => rw [hstatus] at h; exact absurd rfl h
  · exact ⟨_, rfl⟩

/-- What is completed with a decoded response are the packets of the reads before the one with the
first framing error. -/
theorem reads_iff (chunks : List (List UInt8)) (buffer : Buffer) (hidle : s.code = [])
    (responses : List (ℕ × ρ)) : (∃ t, Reads w s buffer chunks t ∧ t.decoded = responses) ↔
      ∃ u, Handles w s (packetsBefore w buffer chunks) u ∧ u.decoded = responses := by
  induction chunks generalizing s buffer with
  | nil =>
    constructor
    · rintro ⟨t, ht, rfl⟩
      cases ht
      exact ⟨s, .nil s, rfl⟩
    · rintro ⟨u, hu, rfl⟩
      cases hu
      exact ⟨s, .done s buffer, rfl⟩
  | cons chunk chunks ih =>
    unfold packetsBefore decodeRead
    dsimp only
    by_cases hok : (decode w.maxBodySize (buffer.append chunk)).1.status.error? = none
    · rw [if_pos hok, ← handleMessage_buffer s]
      constructor
      · rintro ⟨t, ht, hresponses⟩
        cases ht with
        | @read _ v _ _ _ _ _ hfinishes hrest =>
          have hhandles := (handleMessage_of_ok hok hidle).1 hfinishes
          obtain ⟨u, hu, hdecoded⟩ := (ih _ hfinishes.1).1 ⟨t, hrest, hresponses⟩
          exact ⟨u, handles_append.2 ⟨v, hhandles, hu⟩, hdecoded⟩
        | broken herror _ => exact absurd hok herror
      · rintro ⟨u, hu, hresponses⟩
        obtain ⟨v, hv, hrest⟩ := handles_append.1 hu
        have hfinishes := (handleMessage_of_ok hok hidle).2 hv
        obtain ⟨t, ht, hdecoded⟩ := (ih _ hfinishes.1).2 ⟨u, hrest, hresponses⟩
        exact ⟨t, .read hok hfinishes ht, hdecoded⟩
    · rw [if_neg hok]
      obtain ⟨text, htext⟩ := @handleMessage_of_error ρ w s _ hok
      have hclean : ∀ instr ∈ (s.push (State.failAll .protocolError text [.outside])).code,
          instr.isPackets = false := by
        change ∀ instr ∈ _ ++ s.code, _
        rw [hidle]
        simp [State.failAll, Instr.isPackets]
      constructor
      · rintro ⟨t, ht, rfl⟩
        cases ht with
        | read hok' _ _ => exact absurd hok' hok
        | broken herror hfinishes =>
          rw [htext] at hfinishes
          obtain ⟨-, ls, hrun⟩ := hfinishes
          have hdecoded := Silent.decoded_of_run hrun hclean
          exact ⟨s, .nil s, hdecoded.symm⟩
      · rintro ⟨u, hu, rfl⟩
        cases hu
        obtain ⟨t, ht⟩ := exists_finishes_failAll hidle .protocolError text
        have hfinishes := htext.symm ▸ ht
        obtain ⟨-, ls, hrun⟩ := ht
        have hdecoded := Silent.decoded_of_run hrun hclean
        exact ⟨t, .broken hok hfinishes, hdecoded⟩

/-! ## Two ways of cutting -/

theorem packetsBefore_eq (chunks : List (List UInt8)) (buffer : Buffer)
    (h : (framing w.maxBodySize).parse buffer.readable = .more)
    (hok : ((framing w.maxBodySize).drain (buffer.readable ++ chunks.flatten)).2.1 = none) :
    packetsBefore w buffer chunks =
      ((framing w.maxBodySize).drain (buffer.readable ++ chunks.flatten)).1 := by
  induction chunks generalizing buffer with
  | nil =>
    rw [List.flatten_nil, List.append_nil, Framing.drain_of_more h]
    rfl
  | cons chunk chunks ih =>
    have hpair := decode_pair w.maxBodySize (buffer.append chunk)
    have hleft := (decodeLoop_spec w.maxBodySize (buffer.append chunk) []).2.2
    have hrest := Framing.parse_rest (F := framing w.maxBodySize) (buffer.append chunk).readable
    have herror : (decode w.maxBodySize (buffer.append chunk)).1.status.error? = _ :=
      congrArg Prod.snd hpair
    have hpackets : (decode w.maxBodySize (buffer.append chunk)).1.packets = _ :=
      congrArg Prod.fst hpair
    rw [Buffer.readable_append] at hleft hrest herror hpackets
    rw [List.flatten_cons, ← List.append_assoc, Framing.drain_append] at hok ⊢
    cases hfirst : ((framing w.maxBodySize).drain (buffer.readable ++ chunk)).2.1 with
    | some e =>
      rw [hfirst] at hrest
      rw [Framing.drain_of_bad ((framing w.maxBodySize).bad_append _ hrest)] at hok
      cases hok
    | none =>
      rw [hfirst] at hrest herror
      change (decode w.maxBodySize (buffer.append chunk)).2.readable = _ at hleft
      unfold packetsBefore decodeRead
      dsimp only
      rw [if_pos herror, hpackets, ih, hleft]
      · rw [hleft]
        exact hrest
      · rw [hleft]
        exact hok

def LeftOver (w : Wire ρ) (buffer : Buffer) : Prop :=
  (framing w.maxBodySize).parse buffer.readable = .more

/-- The requests completed with a decoded response do not depend on how the bytes are cut. -/
def SegmentationIndependent : Prop :=
  ∀ {ρ : Type} (w : Wire ρ) (s : State ρ) (buffer : Buffer) (chunks chunks' : List (List UInt8)),
    s.code = [] → LeftOver w buffer → chunks.flatten = chunks'.flatten →
    ∀ responses, (∃ t, Reads w s buffer chunks t ∧ t.decoded = responses) →
      ∃ t, Reads w s buffer chunks' t ∧ t.decoded = responses

/-- The requests completed with a decoded response are those of the packets decoded from the reads
before the one with the first framing error.  Two ways of cutting that agree on these packets complete
the same requests, whatever the callbacks do; and where the stream has no framing error all ways of
cutting it do. -/
theorem reads_complete (hidle : s.code = []) {buffer : Buffer} (hbuffer : LeftOver w buffer) :
    (∀ chunks responses, (∃ t, Reads w s buffer chunks t ∧ t.decoded = responses) ↔
      ∃ u, Handles w s (packetsBefore w buffer chunks) u ∧ u.decoded = responses) ∧
    (∀ chunks chunks', packetsBefore w buffer chunks = packetsBefore w buffer chunks' →
      ∀ responses, (∃ t, Reads w s buffer chunks t ∧ t.decoded = responses) ↔
        ∃ t, Reads w s buffer chunks' t ∧ t.decoded = responses) ∧
    ∀ chunks chunks' : List (List UInt8), chunks.flatten = chunks'.flatten →
      (decode w.maxBodySize (buffer.append chunks.flatten)).1.status.error? = none →
      ∀ responses, (∃ t, Reads w s buffer chunks t ∧ t.decoded = responses) ↔
        ∃ t, Reads w s buffer chunks' t ∧ t.decoded = responses := by
  have hagree : ∀ chunks chunks', packetsBefore w buffer chunks = packetsBefore w buffer chunks' →
      ∀ responses, (∃ t, Reads w s buffer chunks t ∧ t.decoded = responses) ↔
        ∃ t, Reads w s buffer chunks' t ∧ t.decoded = responses := by
    intro chunks chunks' h responses
    rw [reads_iff chunks buffer hidle, reads_iff chunks' buffer hidle, h]
  refine ⟨fun chunks responses => reads_iff chunks buffer hidle responses, hagree,
    fun chunks chunks' hbytes hok => hagree chunks chunks' ?_⟩
  have herror := congrArg Prod.snd (decode_pair w.maxBodySize (buffer.append chunks.flatten))
  rw [Buffer.readable_append] at herror
  have hnone := herror.symm.trans hok
  rw [packetsBefore_eq chunks buffer hbuffer hnone, hbytes,
    packetsBefore_eq chunks' buffer hbuffer (hbytes ▸ hnone)]

/-! ## Good and bad bytes in one read -/

def acceptingWire : Wire Unit := ⟨64, fun _ => .ok [1], fun _ _ => .ok ()⟩

def waiting : State Unit :=
  { (State.started : State Unit) with
    connected := true
    pendingCount := 1
    nextSequence := 2
    tables := fun kind => if kind = .chat then [(1, ⟨0, false, none⟩)] else []
    nextId := 1
    events := [.given 0 .chat 1] }

def response : Packet := ⟨⟨3002⟩, 0, 1, []⟩

def badHeader : List UInt8 := List.replicate 20 0

theorem drain_response (ys : List UInt8) : (framing 64).drain (frame response ++ ys) =
    (response :: ((framing 64).drain ys).1, ((framing 64).drain ys).2) := by
  have hencodable : Encodable 64 response := ⟨by decide, by decide⟩
  have hframes : ∀ packet ∈ [response], ∀ ys, (framing 64).parse (frame packet ++ ys) =
      .frame packet (frame packet).length := by
    intro packet hpacket
    rw [List.mem_singleton.1 hpacket]
    exact parse_frameWith (by decide) hencodable 0
  have hdrain := Framing.drain_flatMap hframes ys
  rwa [List.flatMap_singleton] at hdrain

theorem drain_badHeader : (framing 64).drain badHeader = ([], some .invalidMagic, badHeader) := by
  have herror : headerError 64 (parseHeader badHeader) =
      some (.invalidMagic, "invalid protocol magic") := rfl
  have hparse : (framing 64).parse badHeader = .bad .invalidMagic :=
    parse_of_error (by decide) herror
  exact Framing.drain_of_bad hparse

theorem leftOver_make : LeftOver acceptingWire (.make 0) := by
  unfold LeftOver
  rw [Buffer.readable_make]
  rfl

theorem decodeRead_pair (buffer : Buffer) (chunk : List UInt8) :
    (decodeRead acceptingWire buffer chunk).1.packets =
        ((framing 64).drain (buffer.readable ++ chunk)).1 ∧
      (decodeRead acceptingWire buffer chunk).1.status.error? =
        ((framing 64).drain (buffer.readable ++ chunk)).2.1 ∧
      (decodeRead acceptingWire buffer chunk).2.readable =
        ((framing 64).drain (buffer.readable ++ chunk)).2.2 := by
  have hpair := decode_pair 64 (buffer.append chunk)
  have hleft := (decodeLoop_spec 64 (buffer.append chunk) []).2.2
  rw [Buffer.readable_append] at hpair hleft
  exact ⟨congrArg Prod.fst hpair, congrArg Prod.snd hpair, hleft⟩

theorem packetsBefore_two :
    packetsBefore acceptingWire (.make 0) [frame response, badHeader] = [response] := by
  obtain ⟨hpackets, herror, hleft⟩ := decodeRead_pair (.make 0) (frame response)
  have hdrain := drain_response []
  rw [List.append_nil, Framing.drain_of_more (framing 64).parse_nil] at hdrain
  rw [Buffer.readable_make, List.nil_append, hdrain] at hpackets herror hleft
  have hbad := (decodeRead_pair (decodeRead acceptingWire (.make 0) (frame response)).2 badHeader).2.1
  rw [hleft, List.nil_append, drain_badHeader] at hbad
  unfold packetsBefore
  dsimp only
  rw [if_pos herror, hpackets]
  unfold packetsBefore
  simp_all

theorem packetsBefore_one :
    packetsBefore acceptingWire (.make 0) [frame response ++ badHeader] = [] := by
  have hbad := (decodeRead_pair (.make 0) (frame response ++ badHeader)).2.1
  rw [Buffer.readable_make, List.nil_append, drain_response, drain_badHeader] at hbad
  unfold packetsBefore
  simp_all

theorem handles_response : ∃ u, Handles acceptingWire waiting [response] u ∧ u.decoded = [(0, ())] :=
  ⟨_, .cons ⟨rfl, _, .nil _⟩ (.nil _), rfl⟩

/-- A response that comes before malformed bytes completes its request in a read of its own, and does
not in one read with them. -/
theorem response_lost : ¬ SegmentationIndependent := by
  intro h
  have hreads := (reads_iff [frame response, badHeader] (.make 0) rfl [(0, ())]).2
    (packetsBefore_two ▸ handles_response)
  have hone := h acceptingWire waiting (.make 0) [frame response, badHeader]
    [frame response ++ badHeader] rfl leftOver_make (by simp) _ hreads
  obtain ⟨u, hu, hdecoded⟩ := (reads_iff _ _ rfl _).1 hone
  rw [packetsBefore_one] at hu
  cases hu
  cases hdecoded

/-- A response that arrives in two reads. -/
theorem reads_complete_halves : ∃ t, Reads acceptingWire waiting (.make 0)
    [(frame response).take 3, (frame response).drop 3] t ∧ t.decoded = [(0, ())] := by
  obtain ⟨hpackets, herror, -⟩ := decodeRead_pair (.make 0) (frame response)
  have hdrain := drain_response []
  rw [List.append_nil, Framing.drain_of_more (framing 64).parse_nil] at hdrain
  rw [Buffer.readable_make, List.nil_append, hdrain] at hpackets herror
  have hone : packetsBefore acceptingWire (.make 0) [frame response] = [response] := by
    unfold packetsBefore
    dsimp only
    rw [if_pos herror, hpackets]
    rfl
  have hcomplete := @reads_complete Unit acceptingWire waiting rfl (.make 0) leftOver_make
  have hwhole := (hcomplete.1 [frame response] [(0, ())]).2 (hone ▸ handles_response)
  refine (hcomplete.2.2 [frame response] _ (by simp) ?_ _).1 hwhole
  rw [List.flatten_singleton]
  exact herror

end TinyImx.Gateway.PeerTransport
