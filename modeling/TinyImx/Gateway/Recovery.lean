import TinyImx.Lib.Kv
import TinyImx.Lib.Run

/-!
# Scheduling of durable private recovery

`DurablePrivateRecovery` keeps one query over the recipients with pending rows and one replay per
session.  Both are handed out as leases that outlive the state they were issued for; every call takes
the one mutex, so a call is a step.
-/

namespace TinyImx.Gateway.Recovery

structure Options where
  maxSessionStates : ℕ
  maxActiveReplays : ℕ
  queryInterval : ℕ
  failureBackoff : ℕ

def Options.clamp (o : Options) : Options :=
  { o with
    maxSessionStates := max 1 o.maxSessionStates
    maxActiveReplays := max 1 o.maxActiveReplays }

structure ReplayState where
  epoch : ℕ
  generation : ℕ
  cursor : ℕ
  active : Bool
  deriving DecidableEq

/-- The fields under the mutex; times are milliseconds.  `activeReplays` is an integer, so that a
decrement too many would show. -/
structure Core where
  stopped : Bool
  queryActive : Bool
  queryGeneration : ℕ
  cursor : ℕ
  replayGeneration : ℕ
  nextQuery : ℕ
  recipients : List ℕ
  sessions : AList fun _ : ℕ => ReplayState
  activeReplays : ℤ

structure QueryAttempt where
  generation : ℕ
  cursor : ℕ
  finished : Bool

structure ReplayAttempt where
  user : ℕ
  epoch : ℕ
  generation : ℕ
  cursor : ℕ
  finished : Bool

structure State where
  core : Core
  queries : List QueryAttempt
  replays : List ReplayAttempt

def start : State := ⟨⟨true, false, 0, 0, 0, 0, [], ∅, 0⟩, [], []⟩

/-! ## The query -/

def QueryAttempt.Current (q : QueryAttempt) (c : Core) : Prop :=
  q.finished = false ∧ c.stopped = false ∧ c.queryActive = true ∧ c.queryGeneration = q.generation

instance (q : QueryAttempt) (c : Core) : Decidable (q.Current c) := by
  unfold QueryAttempt.Current
  infer_instance

def limit : ℕ := 256

/-- The loop of `Complete` over the ids of the page: the last one, when they increase. -/
def lastOf : ℕ → List ℕ → Option ℕ
  | previous, [] => some previous
  | previous, id :: ids => if id = 0 ∨ id ≤ previous then none else lastOf id ids

def QueryAttempt.complete (o : Options) (q : QueryAttempt) (ids : List ℕ) (hasMore : Bool) (now : ℕ)
    (c : Core) : Bool × QueryAttempt × Core :=
  if limit < ids.length ∨ (hasMore = true ∧ ids.length ≠ limit) then (false, q, c)
  else
    match lastOf q.cursor ids with
    | none => (false, q, c)
    | some previous =>
      if q.Current c then
        (true, { q with finished := true },
          { c with
            recipients := ids
            cursor := if hasMore then previous else 0
            nextQuery := now + o.queryInterval
            queryActive := false })
      else (false, q, c)

def QueryAttempt.fail (o : Options) (q : QueryAttempt) (now : ℕ) (c : Core) : QueryAttempt × Core :=
  ({ q with finished := true },
    if q.Current c then { c with queryActive := false, nextQuery := now + o.failureBackoff } else c)

def State.acquireQuery (s : State) (now : ℕ) : State :=
  let c := s.core
  if c.stopped = true ∨ c.queryActive = true ∨ c.recipients ≠ [] ∨ now < c.nextQuery then s
  else
    { s with
      core := { c with queryGeneration := c.queryGeneration + 1, queryActive := true }
      queries := s.queries ++ [⟨c.queryGeneration + 1, c.cursor, false⟩] }

def Core.takeRecipients (c : Core) (budget : ℕ) : List ℕ × Core :=
  if c.stopped then ([], c)
  else
    let count := min budget (min 32 c.recipients.length)
    (c.recipients.take count, { c with recipients := c.recipients.drop count })

/-! ## Replays -/

def ReplayAttempt.Current (a : ReplayAttempt) (c : Core) (r : ReplayState) : Prop :=
  a.finished = false ∧ c.stopped = false ∧ c.sessions.lookup a.user = some r ∧ r.epoch = a.epoch ∧
    r.generation = a.generation ∧ r.active = true

instance (a : ReplayAttempt) (c : Core) (r : ReplayState) : Decidable (a.Current c r) := by
  unfold ReplayAttempt.Current
  infer_instance

def ReplayAttempt.finishLocked (a : ReplayAttempt) (r : ReplayState) (c : Core) : Core :=
  { c with
    sessions := c.sessions.insert a.user { r with active := false }
    activeReplays := c.activeReplays - 1 }

def ReplayAttempt.complete (a : ReplayAttempt) (lastMessageId : ℕ) (hasMore : Bool) (c : Core) :
    Bool × ReplayAttempt × Core :=
  if hasMore = true ∧ lastMessageId ≤ a.cursor then (false, a, c)
  else
    match c.sessions.lookup a.user with
    | none => (false, a, c)
    | some r =>
      if a.Current c r then
        (true, { a with finished := true },
          a.finishLocked { r with cursor := if hasMore then lastMessageId else 0 } c)
      else (false, a, c)

def ReplayAttempt.release (a : ReplayAttempt) (c : Core) : ReplayAttempt × Core :=
  ({ a with finished := true },
    match c.sessions.lookup a.user with
    | none => c
    | some r => if a.Current c r then a.finishLocked r c else c)

/-- The head of `BeginReplay`: a session with an older epoch starts anew, and one with a newer epoch
refuses. -/
def Core.supersede (c : Core) (user epoch : ℕ) : Option Core :=
  match c.sessions.lookup user with
  | none => some c
  | some r =>
    if r.epoch = epoch then some c
    else if epoch < r.epoch then none
    else some
      { c with
        activeReplays := if r.active then c.activeReplays - 1 else c.activeReplays
        sessions := c.sessions.insert user ⟨epoch, 0, 0, false⟩ }

/-- The session a replay of `user` begins on, if there is one or room for one. -/
def Core.session (o : Options) (c : Core) (user epoch : ℕ) : Option ReplayState :=
  match c.sessions.lookup user with
  | some r => if r.active then none else some r
  | none => if o.maxSessionStates ≤ c.sessions.entries.length then none else some ⟨epoch, 0, 0, false⟩

def State.beginReplay (o : Options) (s : State) (user epoch : ℕ) : State :=
  if user = 0 ∨ epoch = 0 ∨ s.core.stopped = true then s
  else
    match s.core.supersede user epoch with
    | none => s
    | some c =>
      match c.session o user epoch with
      | none => { s with core := c }
      | some r =>
        if (o.maxActiveReplays : ℤ) ≤ c.activeReplays then { s with core := c }
        else
          let generation := c.replayGeneration + 1
          { s with
            core :=
              { c with
                replayGeneration := generation
                sessions := c.sessions.insert user { r with generation := generation, active := true }
                activeReplays := c.activeReplays + 1 }
            replays := s.replays ++ [⟨user, r.epoch, generation, r.cursor, false⟩] }

def Core.retire (c : Core) (user epoch : ℕ) : Core :=
  match c.sessions.lookup user with
  | none => c
  | some r =>
    if r.epoch ≠ epoch then c
    else
      { c with
        activeReplays := if r.active then c.activeReplays - 1 else c.activeReplays
        sessions := c.sessions.erase user }

def Core.resume (c : Core) : Core :=
  { c with
    stopped := false
    queryActive := false
    queryGeneration := c.queryGeneration + 1
    cursor := 0
    nextQuery := 0
    recipients := []
    sessions := ∅
    activeReplays := 0 }

def Core.stop (c : Core) : Core :=
  { c with
    stopped := true
    queryActive := false
    queryGeneration := c.queryGeneration + 1
    recipients := []
    sessions := ∅
    activeReplays := 0 }

/-! ## Steps -/

inductive Label where
  | resume
  | stop
  | acquireQuery (now : ℕ)
  | queryComplete (i : ℕ) (ids : List ℕ) (hasMore : Bool) (now : ℕ)
  | queryFail (i now : ℕ)
  | takeRecipients (budget : ℕ)
  | beginReplay (user epoch : ℕ)
  | replayComplete (i lastMessageId : ℕ) (hasMore : Bool)
  | replayRelease (i : ℕ)
  | retire (user epoch : ℕ)

def State.queryComplete (o : Options) (s : State) (i : ℕ) (q : QueryAttempt) (ids : List ℕ)
    (hasMore : Bool) (now : ℕ) : State :=
  let (_, q', c) := q.complete o ids hasMore now s.core
  { s with core := c, queries := s.queries.set i q' }

def State.queryFail (o : Options) (s : State) (i : ℕ) (q : QueryAttempt) (now : ℕ) : State :=
  let (q', c) := q.fail o now s.core
  { s with core := c, queries := s.queries.set i q' }

def State.replayComplete (s : State) (i : ℕ) (a : ReplayAttempt) (lastMessageId : ℕ)
    (hasMore : Bool) : State :=
  let (_, a', c) := a.complete lastMessageId hasMore s.core
  { s with core := c, replays := s.replays.set i a' }

def State.replayRelease (s : State) (i : ℕ) (a : ReplayAttempt) : State :=
  let (a', c) := a.release s.core
  { s with core := c, replays := s.replays.set i a' }

inductive Step (o : Options) : State → Label → State → Prop
  | resume {s} : Step o s .resume { s with core := s.core.resume }
  | stop {s} : Step o s .stop { s with core := s.core.stop }
  | acquireQuery {s} (now : ℕ) : Step o s (.acquireQuery now) (s.acquireQuery now)
  | queryComplete {s i q} (ids : List ℕ) (hasMore : Bool) (now : ℕ) : s.queries[i]? = some q →
      Step o s (.queryComplete i ids hasMore now) (s.queryComplete o i q ids hasMore now)
  | queryFail {s i q} (now : ℕ) : s.queries[i]? = some q →
      Step o s (.queryFail i now) (s.queryFail o i q now)
  | takeRecipients {s} (budget : ℕ) :
      Step o s (.takeRecipients budget) { s with core := (s.core.takeRecipients budget).2 }
  | beginReplay {s} (user epoch : ℕ) : Step o s (.beginReplay user epoch) (s.beginReplay o user epoch)
  | replayComplete {s i a} (lastMessageId : ℕ) (hasMore : Bool) : s.replays[i]? = some a →
      Step o s (.replayComplete i lastMessageId hasMore) (s.replayComplete i a lastMessageId hasMore)
  | replayRelease {s i a} : s.replays[i]? = some a →
      Step o s (.replayRelease i) (s.replayRelease i a)
  | retire {s} (user epoch : ℕ) :
      Step o s (.retire user epoch) { s with core := s.core.retire user epoch }

end TinyImx.Gateway.Recovery
