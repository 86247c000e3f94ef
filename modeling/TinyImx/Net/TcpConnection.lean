import TinyImx.Lib.Run
import TinyImx.Net.Buffer

/-!
# The output of a connection

`SendInLoop` writes to the socket at once where nothing is buffered, and buffers what the socket did
not take; `HandleWrite` writes the buffer when the channel reports that the socket has room.  Both run
on the loop of the connection, so a step is one whole handler with the answer of its `::send`.
-/

namespace TinyImx.Net.TcpConnection

inductive ConnState
  | connecting
  | connected
  | disconnecting
  | disconnected
  deriving DecidableEq

/-- What `::send` answers: a number of bytes, or an `errno`. -/
inductive SendResult
  | sent (n : ℕ)
  /-- `EAGAIN` or `EWOULDBLOCK`. -/
  | wouldBlock
  | interrupted
  /-- Any other `errno`. -/
  | failed
  deriving DecidableEq

inductive Queued
  | writeComplete
  | highWaterMark (bufferedBytes : ℕ)

structure Conn where
  state : ConnState
  reading : Bool
  writing : Bool
  outputBuffer : Buffer
  writeCompleteCallback : Bool
  highWaterMark : Option ℕ
  queued : List Queued
  accepted : List UInt8
  /-- What the socket had taken at each `ShutdownWrite`. -/
  shutdowns : List (List UInt8)
  closes : ℕ

def make (initialSize : ℕ) (writeCompleteCallback : Bool) (highWaterMark : Option ℕ) : Conn where
  state := .connecting
  reading := false
  writing := false
  outputBuffer := .make initialSize
  writeCompleteCallback := writeCompleteCallback
  highWaterMark := highWaterMark
  queued := []
  accepted := []
  shutdowns := []
  closes := 0

namespace Conn

variable (c : Conn)

def connectEstablished : Conn := { c with state := .connected, reading := true }

def handleClose : Conn :=
  if c.state = .disconnected then c
  else { c with state := .disconnected, reading := false, writing := false, closes := c.closes + 1 }

def handleError : Conn := c.handleClose

def forceCloseInLoop : Conn :=
  if c.state = .connected ∨ c.state = .disconnecting then c.handleClose else c

def connectDestroyed : Conn :=
  if c.state = .connected ∨ c.state = .disconnecting then
    { c with state := .disconnected, reading := false, writing := false }
  else c

def shutdownInLoop : Conn :=
  if c.state ≠ .connected then c
  else if c.writing then { c with state := .disconnecting }
  else { c with state := .disconnecting, shutdowns := c.shutdowns ++ [c.accepted] }

def queueWriteCompleteCallback : Conn :=
  if c.writeCompleteCallback then { c with queued := c.queued ++ [.writeComplete] } else c

def highWater (remaining : ℕ) : List Queued :=
  match c.highWaterMark with
  | none => c.queued
  | some mark =>
    let old := c.outputBuffer.readableBytes
    if old < mark ∧ mark ≤ old + remaining then c.queued ++ [.highWaterMark (old + remaining)]
    else c.queued

def bufferRemaining (remaining : List UInt8) : Conn :=
  { c with
    queued := c.highWater remaining.length
    outputBuffer := c.outputBuffer.append remaining
    writing := true }

def direct : Bool := !c.writing && c.outputBuffer.readableBytes = 0

def sendInLoop (data : List UInt8) (result : SendResult) : Conn :=
  if c.state ≠ .connected then c
  else if c.direct then
    match result with
    | .sent n =>
      let c := { c with accepted := c.accepted ++ data.take n }
      if data.length - n = 0 then c.queueWriteCompleteCallback else c.bufferRemaining (data.drop n)
    | .wouldBlock | .interrupted => c.bufferRemaining data
    | .failed => c.handleError
  else c.bufferRemaining data

def send (data : List UInt8) (result : SendResult) : Conn :=
  if data = [] then c else c.sendInLoop data result

def afterDrain : Conn := if c.state = .disconnecting then c.shutdownInLoop else c

def handleWrite (result : SendResult) : Conn :=
  if !c.writing then c
  else if c.outputBuffer.readableBytes = 0 then { c with writing := false }.afterDrain
  else
    match result with
    | .sent n =>
      if 0 < n then
        let c := { c with
          accepted := c.accepted ++ c.outputBuffer.readable.take n
          outputBuffer := c.outputBuffer.retrieve n }
        if c.outputBuffer.readableBytes = 0 then
          { c with writing := false }.queueWriteCompleteCallback.afterDrain
        else c
      else c
    | .wouldBlock | .interrupted => c
    | .failed => c.handleError

end Conn

/-! ## Steps -/

inductive Label
  | send (data : List UInt8) (result : SendResult)
  | handleWrite (result : SendResult)
  | shutdown
  | forceClose
  | connectDestroyed
  | close
  deriving DecidableEq

def SendResult.fits (length : ℕ) : SendResult → Bool
  | .sent n => n ≤ length
  | _ => true

structure State where
  conn : Conn
  payload : List UInt8

namespace State

variable (s : State)

def enabled : Label → Bool
  | .send data result => result.fits data.length
  | .handleWrite result => result.fits s.conn.outputBuffer.readableBytes
  | _ => true

def apply : Label → State
  | .send data result =>
    ⟨s.conn.send data result, if s.conn.state = .connected then s.payload ++ data else s.payload⟩
  | .handleWrite result => ⟨s.conn.handleWrite result, s.payload⟩
  | .shutdown => ⟨s.conn.shutdownInLoop, s.payload⟩
  | .forceClose => ⟨s.conn.forceCloseInLoop, s.payload⟩
  | .connectDestroyed => ⟨s.conn.connectDestroyed, s.payload⟩
  | .close => ⟨s.conn.handleClose, s.payload⟩

end State

def Step (s : State) (l : Label) (s' : State) : Prop := s.enabled l = true ∧ s' = s.apply l

def start (initialSize : ℕ) (writeCompleteCallback : Bool) (highWaterMark : Option ℕ) : State :=
  ⟨(make initialSize writeCompleteCallback highWaterMark).connectEstablished, []⟩

/-! ## The byte stream -/

/-- What the socket has taken begins the payloads; while the connection is open the buffer holds the
rest, and the channel waits for the socket exactly where there is a rest. -/
structure Inv (c : Conn) (payload : List UInt8) : Prop where
  isPrefix : c.accepted <+: payload
  rest : c.state ≠ .disconnected → c.accepted ++ c.outputBuffer.readable = payload
  writing : c.state ≠ .disconnected →
    (c.writing = true ↔ c.outputBuffer.readable ≠ [])
  closed : c.state = .disconnected → c.writing = false

variable {c : Conn} {payload : List UInt8}

theorem Inv.of_rest (hrest : c.accepted ++ c.outputBuffer.readable = payload)
    (hwriting : c.writing = true ↔ c.outputBuffer.readable ≠ []) (hopen : c.state ≠ .disconnected) :
    Inv c payload :=
  ⟨⟨_, hrest⟩, fun _ => hrest, fun _ => hwriting, fun hstate => absurd hstate hopen⟩

theorem Inv.of_disconnected (h : c.accepted <+: payload) (hstate : c.state = .disconnected)
    (hwriting : c.writing = false) : Inv c payload :=
  ⟨h, fun hne => absurd hstate hne, fun hne => absurd hstate hne, fun _ => hwriting⟩

theorem Inv.handleClose (h : Inv c payload) : Inv c.handleClose payload := by
  unfold Conn.handleClose
  split
  · exact h
  · exact .of_disconnected h.isPrefix rfl rfl

theorem Inv.connectDestroyed (h : Inv c payload) : Inv c.connectDestroyed payload := by
  unfold Conn.connectDestroyed
  split
  · exact .of_disconnected h.isPrefix rfl rfl
  · exact h

theorem Inv.forceCloseInLoop (h : Inv c payload) : Inv c.forceCloseInLoop payload := by
  unfold Conn.forceCloseInLoop
  split
  · exact h.handleClose
  · exact h

theorem Inv.shutdownInLoop (h : Inv c payload) : Inv c.shutdownInLoop payload := by
  unfold Conn.shutdownInLoop
  split
  · exact h
  · next hstate =>
    have hopen : c.state ≠ .disconnected := by
      rw [not_not.1 hstate]
      decide
    split
    · exact .of_rest (h.rest hopen) (h.writing hopen) (by simp)
    · exact .of_rest (h.rest hopen) (h.writing hopen) (by simp)

theorem Inv.afterDrain (h : Inv c payload) : Inv c.afterDrain payload := by
  unfold Conn.afterDrain
  split
  · exact h.shutdownInLoop
  · exact h

theorem Inv.queueWriteCompleteCallback (h : Inv c payload) :
    Inv c.queueWriteCompleteCallback payload := by
  unfold Conn.queueWriteCompleteCallback
  split
  · exact ⟨h.isPrefix, h.rest, h.writing, h.closed⟩
  · exact h

theorem Inv.bufferRemaining {remaining : List UInt8} (hne : remaining ≠ [])
    (hopen : c.state ≠ .disconnected)
    (h : c.accepted ++ (c.outputBuffer.readable ++ remaining) = payload) :
    Inv (c.bufferRemaining remaining) payload := by
  refine .of_rest ?_ ?_ hopen
  · rw [← h]
    simp [Conn.bufferRemaining]
  · simp [Conn.bufferRemaining, hne]

theorem direct_iff : c.direct = true ↔ c.writing = false ∧ c.outputBuffer.readable = [] := by
  unfold Conn.direct
  rw [← List.length_eq_zero_iff, Buffer.length_readable]
  simp

theorem readable_eq_nil_iff {b : Buffer} : b.readable = [] ↔ b.readableBytes = 0 := by
  rw [← Buffer.length_readable, List.length_eq_zero_iff]

theorem Inv.send (h : Inv c payload) {data : List UInt8} {result : SendResult}
    (hfits : result.fits data.length = true) :
    Inv (c.send data result) (if c.state = .connected then payload ++ data else payload) := by
  by_cases hdata : data = []
  · subst hdata
    simpa [Conn.send] using h
  by_cases hstate : c.state = .connected
  swap
  · unfold Conn.send Conn.sendInLoop
    rw [if_neg hstate, if_neg hdata, if_pos hstate]
    exact h
  have hopen : c.state ≠ .disconnected := by
    rw [hstate]
    decide
  have hrest := h.rest hopen
  have hall : Inv (c.bufferRemaining data) (payload ++ data) := by
    refine .bufferRemaining hdata hopen ?_
    rw [← List.append_assoc, hrest]
  unfold Conn.send Conn.sendInLoop
  rw [if_pos hstate, if_neg hdata, if_neg (not_not.2 hstate)]
  split
  · next hdirect =>
    obtain ⟨hidle, hempty⟩ := direct_iff.1 hdirect
    rw [hempty, List.append_nil] at hrest
    cases result with
    | sent n =>
      dsimp only
      split
      · next hdone =>
        have hwhole : data.take n = data := List.take_of_length_le (by omega)
        refine Inv.queueWriteCompleteCallback (.of_rest ?_ ?_ hopen)
        · simp_all
        · simp_all
      · next hleft =>
        refine .bufferRemaining (fun hnil => hleft ?_) hopen ?_
        · rw [← List.length_drop, hnil, List.length_nil]
        · simp_all
    | wouldBlock => exact hall
    | interrupted => exact hall
    | failed =>
      show Inv c.handleClose _
      rw [Conn.handleClose, if_neg hopen]
      exact .of_disconnected (h.isPrefix.trans (List.prefix_append payload data)) rfl rfl
  · exact hall

theorem Inv.handleWrite (h : Inv c payload) (result : SendResult) :
    Inv (c.handleWrite result) payload := by
  unfold Conn.handleWrite
  split
  · exact h
  · next hwriting =>
    have hopen : c.state ≠ .disconnected := fun hstate => hwriting (by simp [h.closed hstate])
    split
    · next hzero =>
      have hnil := readable_eq_nil_iff.2 hzero
      exact Inv.afterDrain (.of_rest (h.rest hopen) (by simp [hnil]) hopen)
    · cases result with
      | sent n =>
        have hmoved : c.accepted ++ c.outputBuffer.readable.take n ++
            (c.outputBuffer.retrieve n).readable = payload := by
          rw [Buffer.readable_retrieve, List.append_assoc, List.take_append_drop]
          exact h.rest hopen
        dsimp only
        split
        · split
          · next hdrained =>
            have hnil := readable_eq_nil_iff.2 hdrained
            refine Inv.afterDrain (Inv.queueWriteCompleteCallback (.of_rest hmoved ?_ hopen))
            simp [hnil]
          · next hleft =>
            refine .of_rest hmoved ?_ hopen
            have hne := mt readable_eq_nil_iff.1 hleft
            exact ⟨fun _ => hne, fun _ => by simpa using hwriting⟩
        · exact h
      | wouldBlock => exact h
      | interrupted => exact h
      | failed => exact h.handleClose

theorem Inv.step {s s' : State} {l : Label} (h : Inv s.conn s.payload) (hs : Step s l s') :
    Inv s'.conn s'.payload := by
  obtain ⟨henabled, rfl⟩ := hs
  cases l with
  | send data result => exact h.send henabled
  | handleWrite result => exact h.handleWrite result
  | shutdown => exact h.shutdownInLoop
  | forceClose => exact h.forceCloseInLoop
  | connectDestroyed => exact h.connectDestroyed
  | close => exact h.handleClose

section

variable {initialSize : ℕ} {writeCompleteCallback : Bool} {highWaterMark : Option ℕ}

theorem inv_start : Inv (start initialSize writeCompleteCallback highWaterMark).conn [] :=
  .of_rest (by simp [start, make, Conn.connectEstablished])
    (by simp [start, make, Conn.connectEstablished]) (by simp [start, Conn.connectEstablished])

theorem Inv.run {ls : List Label} {s : State}
    (hrun : Run Step (start initialSize writeCompleteCallback highWaterMark) ls s) :
    Inv s.conn s.payload :=
  Run.invariant (I := fun s => Inv s.conn s.payload) (fun _ _ _ h hs => h.step hs) hrun inv_start

/-- What the socket has taken is always the beginning of the payloads sent while connected.  While the
connection is open the output buffer is exactly the rest, and the channel is registered for writing
exactly where the buffer is not empty. -/
theorem byte_stream {ls : List Label} {s : State}
    (hrun : Run Step (start initialSize writeCompleteCallback highWaterMark) ls s) :
    s.conn.accepted <+: s.payload ∧
      (s.conn.state ≠ .disconnected →
        s.conn.accepted ++ s.conn.outputBuffer.readable = s.payload ∧
        (s.conn.writing = true ↔ s.conn.outputBuffer.readable ≠ [])) := by
  have h := Inv.run hrun
  exact ⟨h.isPrefix, fun hopen => ⟨h.rest hopen, h.writing hopen⟩⟩

/-- Bytes that did not fit are sent before later ones. -/
theorem byte_stream_partial : ∃ ls s, Run Step (start 4 true (some 2)) ls s ∧
    s.conn.accepted = [1, 2] ∧ s.conn.outputBuffer.readable = [3, 4] ∧
      s.conn.accepted ++ s.conn.outputBuffer.readable = s.payload := by
  let ls : List Label := [.send [1, 2, 3] (.sent 1), .handleWrite .wouldBlock, .send [4] .failed,
    .handleWrite (.sent 1)]
  have hrun : Run Step (start 4 true (some 2)) ls (ls.foldl State.apply (start 4 true (some 2))) :=
    @Run.of_allowed _ _ _ State.enabled State.apply (fun _ _ h => ⟨h, rfl⟩) _ ls (by decide)
  exact ⟨ls, _, hrun, by decide, by decide, ((byte_stream hrun).2 (by decide)).1⟩

/-! ## Shutdown -/

/-- The steps of a run in which nobody closes the connection and the socket reports no fatal error. -/
def Label.graceful : Label → Bool
  | .send _ result => result ≠ .failed
  | .handleWrite result => result ≠ .failed
  | .shutdown => true
  | .forceClose | .connectDestroyed | .close => false

def GracefulStep (s : State) (l : Label) (s' : State) : Prop := Step s l s' ∧ l.graceful = true

theorem afterDrain_eq (c : Conn) : c.afterDrain = c := by
  unfold Conn.afterDrain Conn.shutdownInLoop
  simp_all

def Conn.SameSide (c c' : Conn) : Prop := c'.state = c.state ∧ c'.shutdowns = c.shutdowns

theorem sameSide_queueWriteCompleteCallback (c : Conn) : c.SameSide c.queueWriteCompleteCallback := by
  unfold Conn.queueWriteCompleteCallback
  split <;> exact ⟨rfl, rfl⟩

theorem sameSide_send (c : Conn) (data : List UInt8) {result : SendResult} (h : result ≠ .failed) :
    c.SameSide (c.send data result) := by
  unfold Conn.send Conn.sendInLoop
  split
  · exact ⟨rfl, rfl⟩
  · split
    · exact ⟨rfl, rfl⟩
    · split
      · cases result with
        | sent n =>
          dsimp only
          split
          · exact sameSide_queueWriteCompleteCallback { c with accepted := c.accepted ++ data.take n }
          · exact ⟨rfl, rfl⟩
        | wouldBlock => exact ⟨rfl, rfl⟩
        | interrupted => exact ⟨rfl, rfl⟩
        | failed => exact absurd rfl h
      · exact ⟨rfl, rfl⟩

theorem sameSide_handleWrite (c : Conn) {result : SendResult} (h : result ≠ .failed) :
    c.SameSide (c.handleWrite result) := by
  unfold Conn.handleWrite
  split
  · exact ⟨rfl, rfl⟩
  · split
    · rw [afterDrain_eq]
      exact ⟨rfl, rfl⟩
    · cases result with
      | sent n =>
        dsimp only
        split
        · split
          · rw [afterDrain_eq]
            exact sameSide_queueWriteCompleteCallback { c with
              accepted := c.accepted ++ c.outputBuffer.readable.take n
              outputBuffer := c.outputBuffer.retrieve n
              writing := false }
          · exact ⟨rfl, rfl⟩
        · exact ⟨rfl, rfl⟩
      | wouldBlock => exact ⟨rfl, rfl⟩
      | interrupted => exact ⟨rfl, rfl⟩
      | failed => exact absurd rfl h

theorem GracefulStep.sameSide {s s' : State} {l : Label} (hs : GracefulStep s l s')
    (h : l = .shutdown → s.conn.state ≠ .connected) : s.conn.SameSide s'.conn := by
  obtain ⟨⟨-, rfl⟩, hgraceful⟩ := hs
  cases l with
  | send data result => exact sameSide_send _ data (of_decide_eq_true hgraceful)
  | handleWrite result => exact sameSide_handleWrite _ (of_decide_eq_true hgraceful)
  | shutdown =>
    show s.conn.SameSide s.conn.shutdownInLoop
    rw [Conn.shutdownInLoop, if_pos (h rfl)]
    exact ⟨rfl, rfl⟩
  | forceClose => cases hgraceful
  | connectDestroyed => cases hgraceful
  | close => cases hgraceful

theorem GracefulStep.payload_eq {s s' : State} {l : Label} (hs : GracefulStep s l s')
    (h : s.conn.state ≠ .connected) : s'.payload = s.payload := by
  obtain ⟨⟨-, rfl⟩, -⟩ := hs
  cases l with
  | send data result => exact if_neg h
  | _ => rfl

theorem shutdowns_of_connected {initialSize : ℕ} {writeCompleteCallback : Bool}
    {highWaterMark : Option ℕ} {ls : List Label} {s : State}
    (hrun : Run GracefulStep (start initialSize writeCompleteCallback highWaterMark) ls s) :
    s.conn.state = .connected → s.conn.shutdowns = [] := by
  refine Run.invariant (I := fun s => s.conn.state = .connected → s.conn.shutdowns = [])
    (fun s l s' h hs hstate => ?_) hrun fun _ => rfl
  by_cases hl : l = .shutdown ∧ s.conn.state = .connected
  · obtain ⟨⟨⟨-, rfl⟩, -⟩, rfl, hconnected⟩ := And.intro hs hl
    exfalso
    revert hstate
    show s.conn.shutdownInLoop.state = .connected → False
    rw [Conn.shutdownInLoop, if_neg (not_not.2 hconnected)]
    split <;> exact ConnState.noConfusion
  · have hsame := hs.sameSide fun heq hconnected => hl ⟨heq, hconnected⟩
    rw [hsame.2]
    exact h (hsame.1 ▸ hstate)

theorem disconnecting_run {s s' : State} {ls : List Label} (hrun : Run GracefulStep s ls s')
    (h : s.conn.state = .disconnecting) : s.conn.SameSide s'.conn ∧ s'.payload = s.payload := by
  refine Run.invariant (I := fun t => s.conn.SameSide t.conn ∧ t.payload = s.payload)
    (fun t l t' ht hs => ?_) hrun ⟨⟨rfl, rfl⟩, rfl⟩
  have hstate : t.conn.state ≠ .connected := by
    rw [ht.1.1, h]
    decide
  have hsame := hs.sameSide fun _ => hstate
  exact ⟨⟨hsame.1.trans ht.1.1, hsame.2.trans ht.1.2⟩, (hs.payload_eq hstate).trans ht.2⟩

/-- Where a graceful run processes `Shutdown` on a connected connection and its buffer is empty later,
the write side was shut down once, after all bytes of the earlier sends. -/
def GracefulClose : Prop :=
  ∀ {initialSize : ℕ} {writeCompleteCallback : Bool} {highWaterMark : Option ℕ} {ls ls' : List Label}
    {s s' : State}, Run GracefulStep (start initialSize writeCompleteCallback highWaterMark) ls s →
    s.conn.state = .connected → Run GracefulStep (s.apply .shutdown) ls' s' →
    s'.conn.outputBuffer.readable = [] → s'.conn.shutdowns = [s.payload]

/-- A `Shutdown` that finds bytes in the buffer never shuts the write side down. -/
theorem deferred_shutdown_lost : ¬ GracefulClose := by
  intro h
  let before : List Label := [.send [1] .wouldBlock]
  let after : List Label := [.handleWrite (.sent 1)]
  have hstep : ∀ s l, (State.enabled s l && l.graceful) = true → GracefulStep s l (s.apply l) :=
    fun s l hl => ⟨⟨(Bool.and_eq_true_iff.1 hl).1, rfl⟩, (Bool.and_eq_true_iff.1 hl).2⟩
  have hbefore := @Run.of_allowed _ _ _ _ _ hstep (start 4 false none) before (by decide)
  have hafter := @Run.of_allowed _ _ _ _ _ hstep
    ((before.foldl State.apply (start 4 false none)).apply .shutdown) after (by decide)
  have hclosed := h hbefore (by decide) hafter (by decide)
  revert hclosed
  decide

/-- The write side is shut down once, after all bytes of the earlier sends, exactly where the buffer
was empty when `Shutdown` was processed. -/
theorem graceful_close_iff {initialSize : ℕ} {writeCompleteCallback : Bool}
    {highWaterMark : Option ℕ} {ls ls' : List Label} {s s' : State}
    (hrun : Run GracefulStep (start initialSize writeCompleteCallback highWaterMark) ls s)
    (hstate : s.conn.state = .connected) (hrun' : Run GracefulStep (s.apply .shutdown) ls' s') :
    s'.conn.shutdowns = [s.payload] ↔ s.conn.outputBuffer.readable = [] := by
  have hinv : Inv s.conn s.payload := Inv.run (hrun.imp fun _ _ _ hs => hs.1)
  have hopen : s.conn.state ≠ .disconnected := by
    rw [hstate]
    decide
  have hnone := shutdowns_of_connected hrun hstate
  have hdisconnecting : (s.apply .shutdown).conn.state = .disconnecting := by
    show s.conn.shutdownInLoop.state = .disconnecting
    rw [Conn.shutdownInLoop, if_neg (not_not.2 hstate)]
    split <;> rfl
  rw [(disconnecting_run hrun' hdisconnecting).1.2]
  show s.conn.shutdownInLoop.shutdowns = [s.payload] ↔ _
  rw [Conn.shutdownInLoop, if_neg (not_not.2 hstate)]
  cases hwriting : s.conn.writing with
  | true =>
    have hne := (hinv.writing hopen).1 hwriting
    simp [hnone, hne]
  | false =>
    have hnil : s.conn.outputBuffer.readable = [] := by
      by_contra hne
      rw [(hinv.writing hopen).2 hne] at hwriting
      cases hwriting
    have hall := hinv.rest hopen
    rw [hnil, List.append_nil] at hall
    simp [hnone, hnil, hall]

/-- A `Shutdown` behind a payload the socket took at once. -/
theorem graceful_close_empty : ∃ ls s s', Run GracefulStep (start 4 false none) ls s ∧
    s.payload = [1] ∧ Run GracefulStep (s.apply .shutdown) [] s' ∧
    s'.conn.shutdowns = [s.payload] := by
  have hrun : Run GracefulStep (start 4 false none) [.send [1] (.sent 1)]
      ((start 4 false none).apply (.send [1] (.sent 1))) :=
    .single ⟨⟨by decide, rfl⟩, by decide⟩
  exact ⟨_, _, _, hrun, by decide, .nil _, (graceful_close_iff hrun (by decide) (.nil _)).2 (by decide)⟩

end

end TinyImx.Net.TcpConnection
