import Mathlib.Data.Finmap
import Mathlib.Data.Finset.Sort
import TinyImx.Lib.Pool

/-!
# The event relay

`LocalEventRelay` moves pending events to the publisher.  Its poller, its workers, its progress
writer and the thread that stops it share one mutex; each critical section, each call of the store
and each end of a publisher call is a step of its own.  `Poll` reads its page and admits the events in
one critical section, which other threads' calls of the store may overlap, so these are two steps.
The publisher answers as it likes, and beside the relay the store creates events and requeues
quarantined ones.

`State.log` is not in the source: it records what passed between the relay, the publisher and the
store, the newest entry first.
-/

namespace TinyImx.Local.Relay

variable {Id : Type} [LinearOrder Id]

/-- `LocalEventRelayOptions`, the switches the constructor reads from the environment, and which
events of the store are of a supported kind. -/
structure Options (Id : Type) where
  workers : ℕ
  maxHeld : ℕ
  scanPage : ℕ
  maxRetryEntries : ℕ
  progressBatchSize : ℕ
  maxAttempts : ℕ
  retryBase : ℕ
  retryMax : ℕ
  heldFilter : Bool
  demandPage : Bool
  detachedProgress : Bool
  capabilityTake : Bool
  /-- the store's `pending_index_enabled` -/
  indexed : Bool
  /-- `Supported`: the store's own topic and one of the two tags -/
  supported : Id → Bool

inductive PublishStatus where
  | published
  | retryableFailure
  | permanentFailure

structure Retry where
  attempts : ℕ
  due : ℕ

/-- What the relay did with the publisher and with `MarkEventsPublished`. -/
inductive Entry (Id : Type) where
  | submitted (ids : List Id)
  /-- the statuses a call for `ids` returned; none for a call that threw -/
  | replied (ids : List Id) (reply : List PublishStatus)
  /-- a call of `MarkEventsPublished` with `ids` and the ids that it took off `E/` -/
  | marked (ids : List Id) (removed : Finset Id)

structure State (Id : Type) where
  /-- the keys of `E/` -/
  pending : Finset Id
  /-- the keys of `F/` -/
  quarantined : Finset Id
  taken : Finset Id
  queue : List Id
  completed : List Id
  held : Finset Id
  retries : Finmap fun _ : Id => Retry
  stopping : Bool
  failed : Bool
  progressStopping : Bool
  scanning : Bool
  log : List (Entry Id)

/-- What a worker does next with the events it took.  `next` is the place it goes on from. -/
inductive Todo (Id : Type) where
  /-- the loop of `ProcessBatch` that selects the messages -/
  | gather (rest selected : List Id)
  | scalar (rest : List Id)
  | send (ids : List Id) (next : Todo Id)
  | sent (ids : List Id) (next : Todo Id)
  /-- `ApplyResult` on each of the results -/
  | apply (results : List (Id × PublishStatus)) (next : Todo Id)
  | quarantine (id : Id) (next : Todo Id)
  | settle (id : Id) (next : Todo Id)
  | abort (next : Todo Id)
  | close
  | transfer
  | mark
  | marked
  | finish

inductive Drain (Id : Type) where
  | waiting
  | drained (events : List Id)
  | mark (events : List Id)
  | marked (events : List Id)
  | abort (events : List Id)
  | release (events : List Id)

inductive Thread (Id : Type) where
  /-- `Poll`, with its cursor -/
  | poller (cursor : Option Id)
  /-- in the critical section of `Poll`, after the page is read -/
  | scanned (cursor : Option Id) (examined events : List Id)
  | pollerAbort
  | idle
  | busy (events published : List Id) (todo : Todo Id)
  | writer (drain : Drain Id)
  /-- `StopThreads`, before it sets `stopping` -/
  | stopper
  | joinWorkers
  | joinWriter
  | outside

/-! ## Functions of the relay -/

def State.abort (s : State Id) : State Id :=
  { s with
    failed := true
    stopping := true
    held := (s.held \ s.queue.toFinset) \ s.completed.toFinset
    queue := []
    completed := [] }

/-- How many events a worker takes; `capability` is the publisher's `MaxBatchMessages`. -/
def Options.take (o : Options Id) (capability : ℕ) : ℕ :=
  if o.capabilityTake && o.detachedProgress then
    if 1 < capability ∧ capability ≤ 32 then min o.progressBatchSize capability else 1
  else o.progressBatchSize

/-- A batch if the publisher can take all the events in one, else one event after the other. -/
def startTodo (capability : ℕ) (events : List Id) : Todo Id :=
  if 1 < capability ∧ capability ≤ 32 ∧ 1 < events.length ∧ events.length ≤ capability then
    .gather events []
  else .scalar events

/-- The results of a call for `ids`: a reply of the wrong size confirms nothing. -/
def results (ids : List Id) (reply : List PublishStatus) : List (Id × PublishStatus) :=
  if reply.length = ids.length then ids.zip reply
  else ids.map fun id => (id, .retryableFailure)

/-- The retry entry after one more retryable failure at the time `now`. -/
def Options.nextRetry (o : Options Id) (now : ℕ) (retry : Retry) : Retry :=
  let scale := 2 ^ min retry.attempts 20
  ⟨retry.attempts + 1, now + min o.retryMax (o.retryBase * scale)⟩

/-- The retryable branch of `ApplyResult`: the state, and the place the worker goes on from. -/
def State.retry (s : State Id) (o : Options Id) (now : ℕ) (id : Id) (next : Todo Id) :
    State Id × Todo Id :=
  if (s.retries.lookup id).isNone ∧ o.maxRetryEntries ≤ s.retries.keys.card then (s, .abort next)
  else
    let retry := o.nextRetry now ((s.retries.lookup id).getD ⟨0, 0⟩)
    ({ s with retries := s.retries.insert id retry },
      if o.maxAttempts ≤ retry.attempts then .quarantine id next else next)

def State.forget (s : State Id) (ids : List Id) : State Id :=
  { s with retries := ids.foldl (fun m id => m.erase id) s.retries }

def State.markEventsPublished (s : State Id) (ids : List Id) : State Id :=
  { s with
    pending := s.pending \ ids.toFinset
    log := .marked ids (ids.toFinset ∩ s.pending) :: s.log }

/-- The page of the store's `ListPendingEventPage`: the ids it examined and the events it read.
`ready` are the ids it goes through, the ready ones of the index or all of `E/`. -/
def pendingPage (s : State Id) (ready : Finset Id) (after : Option Id) (limit : ℕ)
    (excluding : Finset Id) : List Id × List Id :=
  let examined := ((ready.filter fun id => after.all (· < id)).sort (· ≤ ·)).take limit
  (examined, examined.filter fun id => id ∈ s.pending ∧ id ∉ excluding)

/-- The loop of `Poll` over the events of a page: the state, the cursor, and whether it came to the
end of the page.  `clock` is the time at which an event is looked at. -/
def State.admitPage (o : Options Id) (clock : Id → ℕ) :
    List Id → State Id → Option Id → State Id × Option Id × Bool
  | [], s, cursor => (s, cursor, true)
  | id :: events, s, cursor =>
    if o.maxHeld ≤ s.held.card then (s, cursor, false)
    else if id ∈ s.held then s.admitPage o clock events (some id)
    else if (s.retries.lookup id).any (clock id < ·.due) then s.admitPage o clock events (some id)
    else { s with held := insert id s.held, queue := s.queue ++ [id] }.admitPage o clock events (some id)

def State.scan (s : State Id) (o : Options Id) (ready : Finset Id) (cursor : Option Id) :
    List Id × List Id :=
  let limit := if o.demandPage then min o.scanPage (o.maxHeld - s.held.card) else o.scanPage
  pendingPage s ready cursor limit (if o.heldFilter then s.held else ∅)

def State.poll (s : State Id) (o : Options Id) (clock : Id → ℕ) (cursor : Option Id)
    (examined events : List Id) : State Id × Option Id :=
  match examined.getLast? with
  | none => (s, none)
  | some last =>
    let (s', cursor', consumed) := s.admitPage o clock events cursor
    (s', if consumed then some last else cursor')

/-! ## Steps -/

/-- The steps of a worker that took `events`, with the ids published so far: the state, then its
events, its published ids and the place it goes on from. -/
inductive Work (o : Options Id) : State Id → List Id → List Id → Todo Id →
    State Id → List Id → List Id → Todo Id → Prop
  | gatherStop {s ev pub rest sel} : s.stopping → Work o s ev pub (.gather rest sel) s ev pub .close
  | gatherReject {s ev pub id rest sel} : ¬s.stopping → o.supported id = false →
      Work o s ev pub (.gather (id :: rest) sel) s ev pub (.quarantine id (.gather rest sel))
  | gatherSelect {s ev pub id rest sel} : ¬s.stopping → o.supported id = true →
      Work o s ev pub (.gather (id :: rest) sel) s ev pub (.gather rest (sel ++ [id]))
  | gatherNone {s ev pub} : Work o s ev pub (.gather [] []) s ev pub .close
  | gathered {s ev pub sel} : ¬s.stopping → sel ≠ [] →
      Work o s ev pub (.gather [] sel) s ev pub (.send sel .close)
  | scalarStop {s ev pub rest} : s.stopping → Work o s ev pub (.scalar rest) s ev pub .close
  | scalarReject {s ev pub id rest} : ¬s.stopping → o.supported id = false →
      Work o s ev pub (.scalar (id :: rest)) s ev pub (.quarantine id (.scalar rest))
  | scalarSend {s ev pub id rest} : ¬s.stopping → o.supported id = true →
      Work o s ev pub (.scalar (id :: rest)) s ev pub (.send [id] (.scalar rest))
  | scalarDone {s ev pub} : Work o s ev pub (.scalar []) s ev pub .close
  | send {s ev pub ids next} : Work o s ev pub (.send ids next)
      { s with log := .submitted ids :: s.log } ev pub (.sent ids next)
  | reply {s ev pub ids next} (reply : List PublishStatus) : Work o s ev pub (.sent ids next)
      { s with log := .replied ids reply :: s.log } ev pub (.apply (results ids reply) next)
  | applied {s ev pub next} : Work o s ev pub (.apply [] next) s ev pub next
  | published {s ev pub id rs next} : Work o s ev pub (.apply ((id, .published) :: rs) next)
      s ev (pub ++ [id]) (.apply rs next)
  | permanent {s ev pub id rs next} : Work o s ev pub (.apply ((id, .permanentFailure) :: rs) next)
      s ev pub (.quarantine id (.apply rs next))
  | retryable {s ev pub id rs next} (now : ℕ) :
      Work o s ev pub (.apply ((id, .retryableFailure) :: rs) next)
        (s.retry o now id (.apply rs next)).1 ev pub (s.retry o now id (.apply rs next)).2
  | quarantine {s ev pub id next} : id ∈ s.pending → Work o s ev pub (.quarantine id next)
      { s with pending := s.pending.erase id, quarantined := insert id s.quarantined } ev pub
      (.settle id next)
  | quarantineFail {s ev pub id next} : Work o s ev pub (.quarantine id next) s ev pub (.abort next)
  | settle {s ev pub id next} : Work o s ev pub (.settle id next) (s.forget [id]) ev pub next
  | abort {s ev pub next} : Work o s ev pub (.abort next) s.abort ev pub next
  | throw {s ev pub todo} : todo ≠ .finish → Work o s ev pub todo s ev pub (.abort .finish)
  | closeNone {s ev pub} : pub = [] ∨ s.failed → Work o s ev pub .close s ev pub .finish
  | closeTransfer {s ev pub} : pub ≠ [] → ¬s.failed → o.detachedProgress →
      Work o s ev pub .close s ev pub .transfer
  | closeMark {s ev pub} : pub ≠ [] → ¬s.failed → o.detachedProgress = false →
      Work o s ev pub .close s ev pub .mark
  | transfer {s ev pub} : ¬s.failed → Work o s ev pub .transfer
      { s with completed := s.completed ++ ev.filter (· ∈ pub) } (ev.filter (· ∉ pub)) pub .finish
  | transferFail {s ev pub} : s.failed → Work o s ev pub .transfer s ev pub .finish
  | mark {s ev pub} : (pub.toFinset ∩ s.pending).card = pub.length → Work o s ev pub .mark
      (s.markEventsPublished pub) ev pub .marked
  | markShort {s ev pub} : (pub.toFinset ∩ s.pending).card ≠ pub.length → Work o s ev pub .mark
      (s.markEventsPublished pub) ev pub (.abort .finish)
  | markFail {s ev pub} : Work o s ev pub .mark { s with log := .marked pub ∅ :: s.log } ev pub
      (.abort .finish)
  | marked {s ev pub} : Work o s ev pub .marked (s.forget pub) ev pub .finish

inductive Progress : State Id → Drain Id → State Id → Drain Id → Prop
  | drain {s} : ¬s.failed → s.completed ≠ [] →
      Progress s .waiting { s with completed := [] } (.drained s.completed)
  | throw {s ev} : Progress s (.drained ev) s (.abort ev)
  | skip {s ev} : s.failed → Progress s (.drained ev) s (.release ev)
  | go {s ev} : ¬s.failed → Progress s (.drained ev) s (.mark ev)
  | mark {s ev} : (ev.toFinset ∩ s.pending).card = ev.length →
      Progress s (.mark ev) (s.markEventsPublished ev) (.marked ev)
  | markShort {s ev} : (ev.toFinset ∩ s.pending).card ≠ ev.length →
      Progress s (.mark ev) (s.markEventsPublished ev) (.abort ev)
  | markFail {s ev} : Progress s (.mark ev) { s with log := .marked ev ∅ :: s.log } (.abort ev)
  | marked {s ev} : Progress s (.marked ev) (s.forget ev) (.release ev)
  | abort {s ev} : Progress s (.abort ev) s.abort (.release ev)
  | release {s ev} : Progress s (.release ev) { s with held := s.held \ ev.toFinset } .waiting

def Thread.isWorker : Thread Id → Bool
  | poller _ | scanned .. | pollerAbort | idle | busy .. => true
  | _ => false

def Thread.isWriter : Thread Id → Bool
  | writer _ => true
  | _ => false

inductive Act (o : Options Id) :
    State Id → Multiset (Thread Id) → Thread Id → State Id → Multiset (Thread Id) → Prop
  | pollStop {s rest c} : s.stopping → Act o s rest (.poller c) s 0
  | pollFull {s rest c} : s.stopping ∨ o.maxHeld ≤ s.held.card →
      Act o s rest (.poller c) s {.poller c}
  | scan {s rest c} (ready : Finset Id) : ¬s.scanning → ¬s.stopping → s.held.card < o.maxHeld →
      (o.indexed = false → ready = s.pending) → Act o s rest (.poller c) { s with scanning := true }
        {.scanned c (s.scan o ready c).1 (s.scan o ready c).2}
  | poll {s rest c examined events} (clock : Id → ℕ) : Act o s rest (.scanned c examined events)
      { (s.poll o clock c examined events).1 with scanning := false }
      {.poller (s.poll o clock c examined events).2}
  | pollFail {s rest c} : Act o s rest (.poller c) s {.pollerAbort}
  | pollAbort {s rest} : Act o s rest .pollerAbort s.abort 0
  | leave {s rest} : s.stopping → Act o s rest .idle s 0
  | take {s rest} (capability capability' : ℕ) : ¬s.stopping → s.queue ≠ [] →
      (o.capabilityTake && o.detachedProgress → capability' = capability) →
      Act o s rest .idle { s with queue := s.queue.drop (o.take capability) }
        {.busy (s.queue.take (o.take capability)) []
          (startTodo capability' (s.queue.take (o.take capability)))}
  | work {s rest ev pub todo s' ev' pub' todo'} : Work o s ev pub todo s' ev' pub' todo' →
      Act o s rest (.busy ev pub todo) s' {.busy ev' pub' todo'}
  | finish {s rest ev pub} : Act o s rest (.busy ev pub .finish)
      { s with held := s.held \ ev.toFinset } {.idle}
  | progress {s rest d s' d'} : Progress s d s' d' → Act o s rest (.writer d) s' {.writer d'}
  | writerStop {s rest} : s.failed ∨ s.completed = [] ∧ s.progressStopping →
      Act o s rest (.writer .waiting) s 0
  | startFail {s rest} : Act o s rest .stopper s.abort {.stopper}
  | stop {s rest} : Act o s rest .stopper
      { s with stopping := true, held := s.held \ s.queue.toFinset, queue := [] } {.joinWorkers}
  | joined {s rest} : (∀ t ∈ rest, t.isWorker = false) → Act o s rest .joinWorkers
      { s with progressStopping := true } {.joinWriter}
  | stopped {s rest} (synced : Bool) : (∀ t ∈ rest, t.isWriter = false) → Act o s rest .joinWriter
      { s with failed := s.failed || !synced } 0
  | create {s rest id} : id ∉ s.taken → Act o s rest .outside
      { s with pending := insert id s.pending, taken := insert id s.taken } {.outside}
  | requeue {s rest} (ids : Finset Id) : ids ⊆ s.quarantined → Disjoint ids s.pending →
      Act o s rest .outside
        { s with pending := s.pending ∪ ids, quarantined := s.quarantined \ ids } {.outside}

def Thread.isScanner : Thread Id → Bool
  | scanned .. => true
  | _ => false

def Mutex (s : State Id) (t : Thread Id) (s' : State Id) : Prop :=
  s.scanning → t.isScanner = false → s'.queue = s.queue ∧ s'.completed = s.completed ∧
    s'.held = s.held ∧ s'.retries = s.retries ∧ s'.stopping = s.stopping ∧ s'.failed = s.failed

def Step (o : Options Id) : Pool (State Id) (Thread Id) → Pool (State Id) (Thread Id) → Prop :=
  Pool.Step (fun s rest t s' new => Act o s rest t s' new ∧ Mutex s t s') fun _ _ _ => False

/-- The threads that `StartThreads` starts, the one that stops them, and the others of the store. -/
def startThreads (o : Options Id) : Multiset (Thread Id) :=
  ({.poller none, .stopper, .outside} : Multiset (Thread Id)) + Multiset.replicate o.workers .idle +
    if o.detachedProgress then ({.writer .waiting} : Multiset (Thread Id)) else 0

def start (pending quarantined : Finset Id) : State Id where
  pending := pending
  quarantined := quarantined
  taken := pending ∪ quarantined
  queue := []
  completed := []
  held := ∅
  retries := ∅
  stopping := false
  failed := false
  progressStopping := false
  scanning := false
  log := []

end TinyImx.Local.Relay
