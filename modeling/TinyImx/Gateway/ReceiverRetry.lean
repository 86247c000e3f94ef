import TinyImx.Gateway.DeliveryHistory
import TinyImx.Lib.Run

/-!
# The receiver retry chain

A delivery is registered in the tracker, handed to `Send`, and a timer for its acknowledgement is
armed; when the timer fires, the callback looks at the tracker and the session table and submits the
message under a fresh sequence.  These are separate steps of any number of threads, which interleave
with each other, with acknowledgements and with sessions that come and go.  The texts the packets
carry are left out.
-/

namespace TinyImx.Gateway.ReceiverRetry

open DeliveryTracker (DeliveryIdentity Entry ReplayRegistration RegisterStatus RetryStatus)

structure Options where
  tracker : DeliveryTracker.Options
  enableDurablePrivateRecovery : Bool
  receiverDeliveryMaxAttempts : UInt32
  receiverAckTimeout : ℤ

/-- One registration: registrations are numbered by tickets, and the packet and the timer that
follow from one belong to it. -/
structure Attempt where
  ticket : ℕ
  id : DeliveryIdentity
  fromUserId : ℕ
  deliverySeq : UInt32
  deriving DecidableEq

inductive Work where
  | delivery (id : DeliveryIdentity) (fromUserId : ℕ)
  | retry (a : Attempt)

def Work.id : Work → DeliveryIdentity
  | .delivery id _ => id
  | .retry a => a.id

def Work.fromUserId : Work → ℕ
  | .delivery _ fromUserId => fromUserId
  | .retry a => a.fromUserId

inductive Stage where
  | idle
  | timedOut (a : Attempt)
  | finding (a : Attempt)
  | entered (w : Work) (connection : ℕ)
  | built (w : Work) (connection : ℕ) (seq : UInt32)
  | encoded (w : Work) (connection : ℕ) (seq : UInt32) (wireBytes : ℕ)
  | reencoding (a : Attempt) (connection : ℕ)
  | sending (a : Attempt) (connection : ℕ)
  | scheduling (a : Attempt) (connection : ℕ)

structure State where
  tracker : DeliveryTracker.State
  nextReceiverDeliverySeq : UInt32
  registrations : ℕ
  threads : ℕ → Stage
  timers : Multiset Attempt
  sessions : ℕ → Option ℕ
  connected : ℕ → Bool

def start : State where
  tracker := DeliveryTracker.start
  nextReceiverDeliverySeq := 1
  registrations := 0
  threads _ := .idle
  timers := 0
  sessions _ := none
  connected _ := false

def State.goto (s : State) (i : ℕ) (stage : Stage) : State :=
  { s with threads := Function.update s.threads i stage }

@[simp] theorem goto_threads (s : State) (i : ℕ) (stage : Stage) :
    (s.goto i stage).threads = Function.update s.threads i stage := rfl

/-! ## The functions -/

def nextReceiverDeliverySeq (next : UInt32) : UInt32 × UInt32 :=
  if next ≠ 0 then (next, next + 1) else (1, 2)

/-- The registration of a submission; only with durable recovery may it reuse a known attempt. -/
def register (o : Options) (t : DeliveryTracker.State) (id : DeliveryIdentity) (seq : UInt32)
    (wireBytes : ℕ) (now : ℤ) : ReplayRegistration × DeliveryTracker.State :=
  if o.enableDurablePrivateRecovery then
    t.registerReplayAttempt o.tracker.clamp id seq wireBytes now
  else
    let (status, t') := t.registerAttempt o.tracker.clamp id seq wireBytes now
    (⟨status, seq, false⟩, t')

def registerRetry (o : Options) (t : DeliveryTracker.State) (a : Attempt) (seq : UInt32) (now : ℤ) :
    RetryStatus × DeliveryTracker.State :=
  t.registerRetryAttempt o.tracker.clamp a.id a.deliverySeq seq o.receiverDeliveryMaxAttempts now

def accepted (status : RegisterStatus) : Bool := status = .registered || status = .retryRegistered

/-- What both the scheduling and the callback check; group deliveries do not look at the sender. -/
def Attempt.wellFormed (a : Attempt) : Bool :=
  a.id.messageId ≠ 0 && a.id.recipientUserId ≠ 0 && a.deliverySeq ≠ 0 &&
    (a.id.domain = .groupMessage || a.fromUserId ≠ 0)

/-- The snapshot the callback takes.  For a private message it is looked up by the message alone. -/
def getSnapshot (t : DeliveryTracker.State) (id : DeliveryIdentity) : Option Entry :=
  match id.domain with
  | .privateMessage =>
    (t.privateReceivers.lookup id.messageId).bind fun recipient =>
      t.entries.lookup ⟨.privateMessage, id.messageId, recipient⟩
  | .groupMessage => t.entries.lookup id

/-- The callback goes on: the attempt waits for its acknowledgement and is the current one. -/
def Attempt.pursued (a : Attempt) (t : DeliveryTracker.State) : Bool :=
  a.wellFormed && (getSnapshot t a.id).any fun e =>
    !e.confirmed && e.currentDeliverySeq = a.deliverySeq

def State.findConnection (s : State) (user : ℕ) : Option ℕ := (s.sessions user).filter s.connected

/-! ## Steps -/

inductive Origin where
  | submitted
  | reused
  | retry (timedOutSeq : UInt32)
  deriving DecidableEq

inductive Failure where
  | encodeFailed
  | notScheduled
  | noSession
  | buildFailed
  | connectionUnavailable
  | refused (status : RetryStatus)

inductive Label where
  | silent
  | registered (a : Attempt) (origin : Origin)
  | sent (a : Attempt)
  | confirmed (id : DeliveryIdentity)
  | lost (a : Attempt) (why : Failure)

/-- A submission that ends before it registers; for a retry, nothing follows the timed out
attempt. -/
def Work.failed (w : Work) (why : Failure) : Label :=
  match w with
  | .delivery _ _ => .silent
  | .retry a => .lost a why

/-- A retry that was not registered; after a confirmation or another attempt none is needed. -/
def refused (a : Attempt) (status : RetryStatus) : Label :=
  if status = .alreadyConfirmed ∨ status = .staleAttempt then .silent else .lost a (.refused status)

def State.attempt (s : State) (w : Work) (seq : UInt32) : Attempt :=
  ⟨s.registrations, w.id, w.fromUserId, seq⟩

def State.registered (s : State) (t : DeliveryTracker.State) (i : ℕ) (stage : Stage) : State :=
  { s.goto i stage with tracker := t, registrations := s.registrations + 1 }

inductive Step (o : Options) : State → Label → State → Prop
  | submit (s : State) (i : ℕ) (id : DeliveryIdentity) (fromUserId connection : ℕ) :
      s.threads i = .idle →
      Step o s .silent (s.goto i (.entered (.delivery id fromUserId) connection))
  | build (s : State) (i : ℕ) (w : Work) (connection : ℕ) : s.threads i = .entered w connection →
      s.connected connection = true →
      Step o s .silent
        { s.goto i (.built w connection (nextReceiverDeliverySeq s.nextReceiverDeliverySeq).1) with
          nextReceiverDeliverySeq := (nextReceiverDeliverySeq s.nextReceiverDeliverySeq).2 }
  | buildFailed (s : State) (i : ℕ) (w : Work) (connection : ℕ) (why : Failure) :
      s.threads i = .entered w connection →
      why = .buildFailed ∨ why = .connectionUnavailable ∧ s.connected connection = false →
      Step o s (w.failed why) (s.goto i .idle)
  | encode (s : State) (i : ℕ) (w : Work) (connection : ℕ) (seq : UInt32) (wireBytes : ℕ) :
      s.threads i = .built w connection seq → s.connected connection = true →
      Step o s .silent (s.goto i (.encoded w connection seq wireBytes))
  | encodeFailed (s : State) (i : ℕ) (w : Work) (connection : ℕ) (seq : UInt32) (why : Failure) :
      s.threads i = .built w connection seq →
      why = .encodeFailed ∨ why = .connectionUnavailable ∧ s.connected connection = false →
      Step o s (w.failed why) (s.goto i .idle)
  | register (s : State) (i : ℕ) (id : DeliveryIdentity) (fromUserId connection : ℕ) (seq : UInt32)
      (wireBytes : ℕ) (now : ℤ) :
      s.threads i = .encoded (.delivery id fromUserId) connection seq wireBytes →
      accepted (register o s.tracker id seq wireBytes now).1.status = true →
      (register o s.tracker id seq wireBytes now).1.reusedAttempt = false →
      Step o s (.registered (s.attempt (.delivery id fromUserId)
          (register o s.tracker id seq wireBytes now).1.deliverySeq) .submitted)
        (s.registered (register o s.tracker id seq wireBytes now).2 i
          (.sending (s.attempt (.delivery id fromUserId) seq) connection))
  | reuse (s : State) (i : ℕ) (id : DeliveryIdentity) (fromUserId connection : ℕ) (seq : UInt32)
      (wireBytes : ℕ) (now : ℤ) :
      s.threads i = .encoded (.delivery id fromUserId) connection seq wireBytes →
      accepted (register o s.tracker id seq wireBytes now).1.status = true →
      (register o s.tracker id seq wireBytes now).1.reusedAttempt = true →
      Step o s (.registered (s.attempt (.delivery id fromUserId)
          (register o s.tracker id seq wireBytes now).1.deliverySeq) .reused)
        (s.registered (register o s.tracker id seq wireBytes now).2 i
          (.reencoding (s.attempt (.delivery id fromUserId)
            (register o s.tracker id seq wireBytes now).1.deliverySeq) connection))
  | rejected (s : State) (i : ℕ) (id : DeliveryIdentity) (fromUserId connection : ℕ) (seq : UInt32)
      (wireBytes : ℕ) (now : ℤ) :
      s.threads i = .encoded (.delivery id fromUserId) connection seq wireBytes →
      accepted (register o s.tracker id seq wireBytes now).1.status = false →
      Step o s .silent
        { s.goto i .idle with tracker := (register o s.tracker id seq wireBytes now).2 }
  | retry (s : State) (i : ℕ) (a : Attempt) (connection : ℕ) (seq : UInt32) (wireBytes : ℕ)
      (now : ℤ) : s.threads i = .encoded (.retry a) connection seq wireBytes →
      (registerRetry o s.tracker a seq now).1 = .retryRegistered →
      Step o s (.registered (s.attempt (.retry a) seq) (.retry a.deliverySeq))
        (s.registered (registerRetry o s.tracker a seq now).2 i
          (.sending (s.attempt (.retry a) seq) connection))
  | retryRefused (s : State) (i : ℕ) (a : Attempt) (connection : ℕ) (seq : UInt32) (wireBytes : ℕ)
      (now : ℤ) : s.threads i = .encoded (.retry a) connection seq wireBytes →
      (registerRetry o s.tracker a seq now).1 ≠ .retryRegistered →
      Step o s (refused a (registerRetry o s.tracker a seq now).1)
        { s.goto i .idle with tracker := (registerRetry o s.tracker a seq now).2 }
  | reencode (s : State) (i : ℕ) (a : Attempt) (connection : ℕ) :
      s.threads i = .reencoding a connection →
      Step o s .silent (s.goto i (.sending a connection))
  | reencodeFailed (s : State) (i : ℕ) (a : Attempt) (connection : ℕ) :
      s.threads i = .reencoding a connection →
      Step o s (.lost a .encodeFailed) (s.goto i .idle)
  | send (s : State) (i : ℕ) (a : Attempt) (connection : ℕ) : s.threads i = .sending a connection →
      Step o s (.sent a) (s.goto i (.scheduling a connection))
  | schedule (s : State) (i : ℕ) (a : Attempt) (connection : ℕ) :
      s.threads i = .scheduling a connection → a.wellFormed = true → 0 < o.receiverAckTimeout →
      Step o s .silent { s.goto i .idle with timers := a ::ₘ s.timers }
  | notScheduled (s : State) (i : ℕ) (a : Attempt) (connection : ℕ) :
      s.threads i = .scheduling a connection →
      Step o s (.lost a .notScheduled) (s.goto i .idle)
  | fire (s : State) (i : ℕ) (a : Attempt) : s.threads i = .idle → a ∈ s.timers →
      Step o s .silent { s.goto i (.timedOut a) with timers := s.timers.erase a }
  | pursue (s : State) (i : ℕ) (a : Attempt) : s.threads i = .timedOut a →
      a.pursued s.tracker = true → Step o s .silent (s.goto i (.finding a))
  | settled (s : State) (i : ℕ) (a : Attempt) : s.threads i = .timedOut a →
      a.pursued s.tracker = false → Step o s .silent (s.goto i .idle)
  | find (s : State) (i : ℕ) (a : Attempt) (connection : ℕ) : s.threads i = .finding a →
      s.findConnection a.id.recipientUserId = some connection →
      Step o s .silent (s.goto i (.entered (.retry a) connection))
  | noSession (s : State) (i : ℕ) (a : Attempt) : s.threads i = .finding a →
      s.findConnection a.id.recipientUserId = none →
      Step o s (.lost a .noSession) (s.goto i .idle)
  | acknowledge (s : State) (id : DeliveryIdentity) (seq : UInt32) :
      (s.tracker.acknowledge o.tracker.clamp id seq).1 = .confirmed →
      Step o s (.confirmed id)
        { s with tracker := (s.tracker.acknowledge o.tracker.clamp id seq).2 }
  | notConfirmed (s : State) (id : DeliveryIdentity) (seq : UInt32) :
      (s.tracker.acknowledge o.tracker.clamp id seq).1 ≠ .confirmed →
      Step o s .silent { s with tracker := (s.tracker.acknowledge o.tracker.clamp id seq).2 }
  | session (s : State) (user : ℕ) (connection : Option ℕ) :
      Step o s .silent { s with sessions := Function.update s.sessions user connection }
  | connection (s : State) (connection : ℕ) (up : Bool) :
      Step o s .silent { s with connected := Function.update s.connected connection up }

/-! ## What is said about a state and its history -/

def Stage.submitting : Stage → Option Attempt
  | .reencoding a _ | .sending a _ | .scheduling a _ => some a
  | _ => none

def Stage.handling : Stage → Option Attempt
  | .timedOut a | .finding a => some a
  | .entered (.retry a) _ | .built (.retry a) _ _ | .encoded (.retry a) _ _ _ => some a
  | _ => none

def State.Submitting (s : State) (a : Attempt) : Prop := ∃ i, (s.threads i).submitting = some a

def State.Handling (s : State) (a : Attempt) : Prop := ∃ i, (s.threads i).handling = some a

def lastRegistered (id : DeliveryIdentity) (ls : List Label) : Option Attempt :=
  ls.foldl (fun last l =>
    match l with
    | .registered a _ => if a.id = id then some a else last
    | _ => last) none

def Label.attempts (id : DeliveryIdentity) (seq : UInt32) : Label → Bool
  | .registered a origin => a.id = id && a.deliverySeq = seq && origin ≠ .reused
  | _ => false

/-- The label registers a retry of the identity, which `seq` timed out for. -/
def Label.retries (id : DeliveryIdentity) (seq : UInt32) : Label → Bool
  | .registered a origin => a.id = id && origin = .retry seq
  | _ => false

def Label.submits (id : DeliveryIdentity) : Label → Bool
  | .registered a origin => a.id = id && origin = .submitted
  | _ => false

def Label.confirmsOther (id : DeliveryIdentity) : Label → Bool
  | .confirmed id' => id' ≠ id
  | _ => false

end TinyImx.Gateway.ReceiverRetry
