import TinyImx.Lib.Kv
import Mathlib.Data.UInt

/-!
# The receiver delivery tracker

`ReceiverDeliveryTracker` remembers, for each message and recipient, under which sequence numbers the
message was sent, so that an acknowledgement can be matched to an attempt.  Every call takes the one
mutex, so a run is a list of calls.  The counters the code decrements are integers here, so that a
decrement too many would show.
-/

namespace TinyImx.Gateway.DeliveryTracker

inductive DeliveryDomain where
  | privateMessage
  | groupMessage
  deriving DecidableEq

structure DeliveryIdentity where
  domain : DeliveryDomain
  messageId : ℕ
  recipientUserId : ℕ
  deriving DecidableEq

def DeliveryIdentity.Valid (id : DeliveryIdentity) : Prop := id.messageId ≠ 0 ∧ id.recipientUserId ≠ 0

instance (id : DeliveryIdentity) : Decidable id.Valid := by
  unfold DeliveryIdentity.Valid
  infer_instance

inductive RegisterStatus where
  | registered
  | retryRegistered
  | duplicateAttempt
  | alreadyConfirmed
  | receiverMismatch
  | invalidArgument
  | windowFull
  | waitingAck
  deriving DecidableEq

inductive AckStatus where
  | confirmed
  | duplicate
  | unknownMessage
  | receiverMismatch
  | unknownAttempt
  | invalidArgument
  deriving DecidableEq

inductive RetryStatus where
  | retryRegistered
  | alreadyConfirmed
  | staleAttempt
  | attemptLimitReached
  | receiverMismatch
  | duplicateAttempt
  | unknownMessage
  | invalidArgument
  deriving DecidableEq

/-- The limits; times are nanoseconds, and `uncertainty` is the resolution of the clock. -/
structure Options where
  maxRecentConfirmed : ℕ
  maxWaitingEntries : ℕ
  maxWaitingPerRecipient : ℕ
  maxWaitingBytes : ℕ
  maxBytesPerRecipient : ℕ
  maxAttemptSequences : ℕ
  recoveryResendCooldown : ℕ
  uncertainty : ℕ

def Options.clamp (o : Options) : Options where
  maxRecentConfirmed := max o.maxRecentConfirmed 1
  maxWaitingEntries := max 1 o.maxWaitingEntries
  maxWaitingPerRecipient := max 1 o.maxWaitingPerRecipient
  maxWaitingBytes := max 1 o.maxWaitingBytes
  maxBytesPerRecipient := max 1 o.maxBytesPerRecipient
  maxAttemptSequences := max 1 o.maxAttemptSequences
  recoveryResendCooldown := max o.recoveryResendCooldown 1000000
  uncertainty := o.uncertainty

structure Entry where
  currentDeliverySeq : UInt32
  attemptCount : UInt32
  confirmed : Bool
  attemptSeqs : Finset UInt32
  wireBytes : ℕ
  lastAttemptAt : ℤ

structure RecipientWindow where
  entries : ℤ
  bytes : ℤ

structure State where
  entries : AList fun _ : DeliveryIdentity => Entry
  privateReceivers : AList fun _ : ℕ => ℕ
  confirmedOrder : List DeliveryIdentity
  waitingByRecipient : AList fun _ : ℕ => RecipientWindow
  waitingEntries : ℤ
  waitingBytes : ℤ
  attemptSequences : ℤ

def start : State := ⟨∅, ∅, [], ∅, 0, 0, 0⟩

def State.window (s : State) (recipient : ℕ) : RecipientWindow :=
  (s.waitingByRecipient.lookup recipient).getD ⟨0, 0⟩

def State.byteRoomLocked (o : Options) (s : State) (recipient extra : ℕ) : Bool :=
  s.waitingBytes ≤ o.maxWaitingBytes && extra ≤ o.maxWaitingBytes - s.waitingBytes &&
    (s.window recipient).bytes ≤ o.maxBytesPerRecipient &&
    extra ≤ o.maxBytesPerRecipient - (s.window recipient).bytes

def State.mismatch (s : State) (id : DeliveryIdentity) : Bool :=
  id.domain = .privateMessage && (s.privateReceivers.lookup id.messageId).isSome

/-! ## Registration -/

def State.enroll (s : State) (id : DeliveryIdentity) (seq : UInt32) (wireBytes : ℕ) (now : ℤ) : State :=
  { s with
    entries := s.entries.insert id ⟨seq, 1, false, {seq}, wireBytes, now⟩
    privateReceivers := if id.domain = .privateMessage
      then s.privateReceivers.insert id.messageId id.recipientUserId else s.privateReceivers
    waitingByRecipient := s.waitingByRecipient.insert id.recipientUserId
      ⟨(s.window id.recipientUserId).entries + 1, (s.window id.recipientUserId).bytes + wireBytes⟩
    waitingEntries := s.waitingEntries + 1
    waitingBytes := s.waitingBytes + wireBytes
    attemptSequences := s.attemptSequences + 1 }

def State.extend (s : State) (id : DeliveryIdentity) (e : Entry) (extra : ℕ) (now : ℤ) : State :=
  { s with
    entries := s.entries.insert id { e with wireBytes := e.wireBytes + extra, lastAttemptAt := now }
    waitingBytes := s.waitingBytes + extra
    waitingByRecipient := s.waitingByRecipient.insert id.recipientUserId
      { s.window id.recipientUserId with
        bytes := (s.window id.recipientUserId).bytes + extra } }

def Entry.attempt (e : Entry) (seq : UInt32) : Entry :=
  { e with
    attemptSeqs := insert seq e.attemptSeqs
    currentDeliverySeq := seq
    attemptCount := e.attemptCount + 1 }

def Entry.extra (e : Entry) (wireBytes : ℕ) : ℕ :=
  if e.wireBytes < wireBytes then wireBytes - e.wireBytes else 0

def State.registerAttemptLocked (o : Options) (s : State) (id : DeliveryIdentity) (seq : UInt32)
    (wireBytes : ℕ) (now : ℤ) : RegisterStatus × State :=
  match s.entries.lookup id with
  | none =>
    if s.mismatch id then (.receiverMismatch, s)
    else if (o.maxWaitingEntries : ℤ) ≤ s.waitingEntries ∨
        (o.maxWaitingPerRecipient : ℤ) ≤ (s.window id.recipientUserId).entries ∨
        s.byteRoomLocked o id.recipientUserId wireBytes = false then (.windowFull, s)
    else (.registered, s.enroll id seq wireBytes now)
  | some e =>
    if e.confirmed then (.alreadyConfirmed, s)
    else if seq ∈ e.attemptSeqs then (.duplicateAttempt, s)
    else
      let extra := e.extra wireBytes
      if o.maxAttemptSequences ≤ e.attemptSeqs.card ∨
          s.byteRoomLocked o id.recipientUserId extra = false then (.windowFull, s)
      else (.retryRegistered,
        { s.extend id (e.attempt seq) extra now with attemptSequences := s.attemptSequences + 1 })

def State.registerAttempt (o : Options) (s : State) (id : DeliveryIdentity) (seq : UInt32)
    (wireBytes : ℕ) (now : ℤ) : RegisterStatus × State :=
  if ¬id.Valid ∨ seq = 0 then (.invalidArgument, s)
  else s.registerAttemptLocked o id seq wireBytes now

structure ReplayRegistration where
  status : RegisterStatus
  deliverySeq : UInt32
  reusedAttempt : Bool

/-- The rest of `RegisterReplayAttempt`, when no known attempt is reused. -/
def State.replayFresh (o : Options) (s : State) (id : DeliveryIdentity) (proposedSeq : UInt32)
    (wireBytes : ℕ) (now : ℤ) : ReplayRegistration × State :=
  let (status, s') := s.registerAttemptLocked o id proposedSeq wireBytes now
  (⟨status, if status = .registered ∨ status = .retryRegistered then proposedSeq else 0, false⟩, s')

def State.registerReplayAttempt (o : Options) (s : State) (id : DeliveryIdentity)
    (proposedSeq : UInt32) (wireBytes : ℕ) (now : ℤ) : ReplayRegistration × State :=
  if ¬id.Valid ∨ proposedSeq = 0 then (⟨.invalidArgument, 0, false⟩, s)
  else
    match s.entries.lookup id with
    | none => s.replayFresh o id proposedSeq wireBytes now
    | some e =>
      if e.confirmed then s.replayFresh o id proposedSeq wireBytes now
      else if now < e.lastAttemptAt + o.recoveryResendCooldown + o.uncertainty then
        (⟨.waitingAck, 0, false⟩, s)
      else if o.maxAttemptSequences ≤ e.attemptSeqs.card then
        let extra := e.extra wireBytes
        if s.byteRoomLocked o id.recipientUserId extra then
          (⟨.retryRegistered, e.currentDeliverySeq, true⟩, s.extend id e extra now)
        else (⟨.windowFull, 0, false⟩, s)
      else s.replayFresh o id proposedSeq wireBytes now

def State.registerRetryAttempt (o : Options) (s : State) (id : DeliveryIdentity)
    (expectedSeq newSeq maxAttempts : UInt32) (now : ℤ) : RetryStatus × State :=
  if ¬id.Valid ∨ expectedSeq = 0 ∨ newSeq = 0 ∨ maxAttempts = 0 then (.invalidArgument, s)
  else
    match s.entries.lookup id with
    | none => (if s.mismatch id then .receiverMismatch else .unknownMessage, s)
    | some e =>
      if e.confirmed then (.alreadyConfirmed, s)
      else if e.currentDeliverySeq ≠ expectedSeq then (.staleAttempt, s)
      else if maxAttempts ≤ e.attemptCount ∨ o.maxAttemptSequences ≤ e.attemptSeqs.card then
        (.attemptLimitReached, s)
      else if newSeq ∈ e.attemptSeqs then (.duplicateAttempt, s)
      else (.retryRegistered,
        { s with
          entries := s.entries.insert id { e.attempt newSeq with lastAttemptAt := now }
          attemptSequences := s.attemptSequences + 1 })

/-! ## Acknowledgement -/

def State.forget (s : State) (id : DeliveryIdentity) : State :=
  match s.entries.lookup id with
  | none => s
  | some e =>
    if e.confirmed then
      { s with
        attemptSequences := s.attemptSequences - e.attemptSeqs.card
        privateReceivers := if id.domain = .privateMessage
          then s.privateReceivers.erase id.messageId else s.privateReceivers
        entries := s.entries.erase id }
    else s

/-- The loop of `TrimConfirmedLocked` over what is left of the order. -/
def State.trimLoop (o : Options) : List DeliveryIdentity → State → State
  | [], s => { s with confirmedOrder := [] }
  | id :: order, s =>
    if o.maxRecentConfirmed < (id :: order).length then (s.forget id).trimLoop o order
    else { s with confirmedOrder := id :: order }

def State.trimConfirmedLocked (o : Options) (s : State) : State := s.trimLoop o s.confirmedOrder

/-- What `Acknowledge` does to the entry and the windows before it trims. -/
def State.confirm (s : State) (id : DeliveryIdentity) (e : Entry) : State :=
  let window := s.window id.recipientUserId
  let window' : RecipientWindow := ⟨window.entries - 1, window.bytes - e.wireBytes⟩
  { s with
    confirmedOrder := s.confirmedOrder ++ [id]
    entries := s.entries.insert id { e with confirmed := true, wireBytes := 0 }
    waitingEntries := s.waitingEntries - 1
    waitingBytes := s.waitingBytes - e.wireBytes
    waitingByRecipient := if window'.entries = 0
      then s.waitingByRecipient.erase id.recipientUserId
      else s.waitingByRecipient.insert id.recipientUserId window' }

def State.acknowledge (o : Options) (s : State) (id : DeliveryIdentity) (seq : UInt32) :
    AckStatus × State :=
  if ¬id.Valid ∨ seq = 0 then (.invalidArgument, s)
  else
    match s.entries.lookup id with
    | none => (if s.mismatch id then .receiverMismatch else .unknownMessage, s)
    | some e =>
      if seq ∉ e.attemptSeqs then (.unknownAttempt, s)
      else if e.confirmed then (.duplicate, s)
      else (.confirmed, (s.confirm id e).trimConfirmedLocked o)

/-! ## Runs -/

inductive Call where
  | registerAttempt (id : DeliveryIdentity) (seq : UInt32) (wireBytes : ℕ) (now : ℤ)
  | registerReplayAttempt (id : DeliveryIdentity) (proposedSeq : UInt32) (wireBytes : ℕ) (now : ℤ)
  | registerRetryAttempt (id : DeliveryIdentity) (expectedSeq newSeq maxAttempts : UInt32) (now : ℤ)
  | acknowledge (id : DeliveryIdentity) (seq : UInt32)

inductive Reply where
  | register (status : RegisterStatus)
  | replay (registration : ReplayRegistration)
  | retry (status : RetryStatus)
  | ack (status : AckStatus)

def State.call (o : Options) (s : State) : Call → Reply × State
  | .registerAttempt id seq wireBytes now =>
    let (status, s') := s.registerAttempt o id seq wireBytes now
    (.register status, s')
  | .registerReplayAttempt id seq wireBytes now =>
    let (registration, s') := s.registerReplayAttempt o id seq wireBytes now
    (.replay registration, s')
  | .registerRetryAttempt id expected new maxAttempts now =>
    let (status, s') := s.registerRetryAttempt o id expected new maxAttempts now
    (.retry status, s')
  | .acknowledge id seq =>
    let (status, s') := s.acknowledge o id seq
    (.ack status, s')

def run (o : Options) (calls : List Call) : State := calls.foldl (fun s c => (s.call o c).2) start

end TinyImx.Gateway.DeliveryTracker
