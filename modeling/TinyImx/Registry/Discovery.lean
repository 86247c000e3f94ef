import Mathlib
import TinyImx.Lib.Run
import TinyImx.Registry.ZooKeeperClient

/-!
# Service discovery

`ZooKeeperServiceDiscovery` keeps, for each known service, a snapshot of the instances below its path.
The control loop takes the services that watch and session events have marked, and reads each of them
again: the children with a watch, or an existence watch where there is no path, and then each child.
Every read is a step; changes of nodes, deliveries of events and changes of the session come between
any two of them.
-/

namespace TinyImx.Registry.ZooKeeper.Discovery

open TinyImx.Local (Bytes)

def ascii (text : String) : Bytes := text.toList.map fun c => c.toNat.toUInt8

/-! ## Instances -/

structure ServiceInstance where
  schemaVersion : ℤ
  serviceName : Bytes
  instanceId : Bytes
  target : Bytes
  protocol : Bytes
  version : Bytes

def isAlnum (c : UInt8) : Bool :=
  (48 ≤ c && c ≤ 57) || (65 ≤ c && c ≤ 90) || (97 ≤ c && c ≤ 122)

def IsSafeServiceName (value : Bytes) : Bool :=
  value ≠ [] && value.length ≤ 64 && value.all fun c => isAlnum c || c = 45 || c = 95 || c = 46

def IsSafePathSegment (value : Bytes) : Bool :=
  value ≠ [] && value.length ≤ 255 && !value.contains 47 && !value.contains 0

def IsValidTarget (value : Bytes) : Bool :=
  value ≠ [] && value.length ≤ 512 && !value.contains 47 && !value.contains 0

def ServiceInstance.Valid (i : ServiceInstance) : Bool :=
  i.schemaVersion = 1 && IsSafeServiceName i.serviceName && IsSafePathSegment i.instanceId &&
    IsValidTarget i.target && i.protocol = ascii "grpc" && i.version ≠ [] && i.version.length ≤ 64

/-- `Deserialize`, over the fields that the JSON library finds in a text. -/
def deserialize (parse : Bytes → Option ServiceInstance) (body : Bytes) : Option ServiceInstance :=
  match parse body with
  | none => none
  | some i => if i.Valid then some i else none

/-- `kKnownServices`. -/
inductive Service where
  | user | social | message | group | file
  deriving DecidableEq

def Service.all : List Service := [.user, .social, .message, .group, .file]

def Service.name : Service → Bytes
  | .user => ascii "user"
  | .social => ascii "social"
  | .message => ascii "message"
  | .group => ascii "group"
  | .file => ascii "file"

/-! ## What a refresh publishes -/

def accept (parse : Bytes → Option ServiceInstance) (service : Service) (child : Bytes)
    (node : NodeRecord) : Option ServiceInstance :=
  match deserialize parse node.data with
  | none => none
  | some i =>
    if i.serviceName ≠ service.name ∨ i.instanceId ≠ child ∨ i.protocol ≠ ascii "grpc" ∨
      node.ephemeralOwner = 0 then none
    else some i

theorem bytes_lawful : LawfulBEq Bytes := inferInstance

attribute [local instance] bytes_lawful

def consider (parse : Bytes → Option ServiceInstance) (service : Service) (child : Bytes)
    (node : NodeRecord) (candidate : List ServiceInstance) : List ServiceInstance :=
  match accept parse service child node with
  | none => candidate
  | some i => if i.target ∈ candidate.map (·.target) then candidate else candidate ++ [i]

def sortNames (children : List Bytes) : List Bytes := children.mergeSort fun a b => !decide (b < a)

/-- `std::sort` of the candidates, by instance id and then by target. -/
def sortCandidate (candidate : List ServiceInstance) : List ServiceInstance :=
  candidate.mergeSort fun a b =>
    !(if b.instanceId ≠ a.instanceId then decide (b.instanceId < a.instanceId)
      else decide (b.target < a.target))

/-! ## The state -/

structure ServiceDiscoverySnapshot where
  instances : List ServiceInstance
  generation : ℕ
  initialized : Bool
  lastRefreshOk : Bool
  lastError : String

def ServiceDiscoverySnapshot.empty : ServiceDiscoverySnapshot := ⟨[], 0, false, false, ""⟩

inductive Phase where
  | waiting
  | swapped (pending : Service → Bool)
  | connected (pending : Service → Bool)
  | choose (pending : Service → Bool)
  | refresh (rest : Service → Bool)
  | getChildren (service : Service) (rest : Service → Bool)
  | exists (service : Service) (rest : Service → Bool)
  | getChildrenAgain (service : Service) (rest : Service → Bool)
  | child (service : Service) (rest : Service → Bool) (children : List Bytes)
      (candidate : List ServiceInstance)
  | get (service : Service) (rest : Service → Bool) (child : Bytes) (children : List Bytes)
      (candidate : List ServiceInstance) (length : ℕ)

structure State where
  children : Service → Option (List (Bytes × Node))
  childWatch : Service → Bool
  existsWatch : Service → Bool
  fired : Service → ℕ
  expired : ℕ → Bool
  nextSession : ℕ
  client : Client
  dispatching : ℕ
  pending : Service → Bool
  observedSessionGeneration : ℕ
  snapshots : Service → ServiceDiscoverySnapshot
  phase : Phase

namespace State

def Alive (s : State) (session : ℕ) : Prop :=
  s.client.handle = some (some session) ∧ s.expired session = false

def change (s : State) (service : Service) (children : Option (List (Bytes × Node)))
    (touchesExists : Bool) : State :=
  let exists' := touchesExists && s.existsWatch service
  { s with
    children := Function.update s.children service children
    childWatch := Function.update s.childWatch service false
    existsWatch := Function.update s.existsWatch service (s.existsWatch service && !touchesExists)
    fired := Function.update s.fired service
      (s.fired service + (s.childWatch service).toNat + exists'.toNat) }

def noWatch (s : State) : State :=
  { s with childWatch := fun _ => false, existsWatch := fun _ => false }

def expire (s : State) (session : ℕ) : State :=
  let s' := { s with expired := Function.update s.expired session true }
  if s.client.handle = some (some session) then s'.noWatch else s'

def go (s : State) (phase : Phase) : State := { s with phase }

def markRefreshFailed (s : State) (service : Service) (error : String) : State :=
  { s with
    snapshots := Function.update s.snapshots service
      { s.snapshots service with lastRefreshOk := false, lastError := error } }

def markAllRefreshFailed (s : State) (error : String) : State :=
  { s with
    snapshots := fun service => { s.snapshots service with lastRefreshOk := false, lastError := error } }

def publishSnapshot (s : State) (service : Service) (instances : List ServiceInstance) : State :=
  { s with
    snapshots := Function.update s.snapshots service
      ⟨instances, (s.snapshots service).generation + 1, true, true, ""⟩ }

def observe (s : State) (pending : Service → Bool) : State :=
  { s with
    observedSessionGeneration := s.client.sessionGeneration
    phase :=
      .choose fun service =>
        pending service || s.client.sessionGeneration ≠ s.observedSessionGeneration }

def chosen (s : State) (pending : Service → Bool) : Service → Bool :=
  if Service.all.any pending = false then
    fun service => !(s.snapshots service).initialized || !(s.snapshots service).lastRefreshOk
  else pending

end State

inductive Label where
  | silent
  | published (service : Service)
  | failed (service : Service)
  | disconnected
  deriving DecidableEq

/-- Before the control loop runs for the first time; the client is in any state of its own. -/
structure State.Initial (s : State) : Prop where
  session : 0 < s.nextSession
  handle : ∀ session, s.client.handle = some (some session) → 0 < session ∧ session < s.nextSession
  sessionId : s.client.sessionId < s.nextSession
  connected : s.client.state = .connected → s.client.handle = some (some s.client.sessionId)
  observed : s.observedSessionGeneration = 0
  names : ∀ service children, s.children service = some children → (children.map Prod.fst).Nodup
  childWatch : ∀ service, s.childWatch service = true → s.children service ≠ none
  noWatch : (∀ session, s.client.handle ≠ some (some session)) →
    ∀ service, s.childWatch service = false ∧ s.existsWatch service = false
  snapshots : ∀ service, s.snapshots service = .empty
  phase : s.phase = .waiting

def nodeAt (s : State) (service : Service) (child : Bytes) : Option Node :=
  match s.children service with
  | none => none
  | some children => (children.find? fun c => c.1 = child).map Prod.snd

inductive Step (parse : Bytes → Option ServiceInstance) : State → Label → State → Prop
  -- The nodes.
  | createPath {s : State} {service : Service} : s.children service = none →
      Step parse s .silent (s.change service (some []) true)
  | deletePath {s : State} {service : Service} : s.children service = some [] →
      Step parse s .silent (s.change service none true)
  | createChild {s : State} {service : Service} {children : List (Bytes × Node)} {name : Bytes}
      {node : Node} : s.children service = some children → name ∉ children.map Prod.fst →
      Step parse s .silent (s.change service (some ((name, node) :: children)) false)
  | deleteChild {s : State} {service : Service} {children : List (Bytes × Node)} {name : Bytes} :
      s.children service = some children → name ∈ children.map Prod.fst →
      Step parse s .silent
        (s.change service (some (children.filter fun c => c.1 ≠ name)) false)
  -- The session and the client.
  | expire {s : State} {session : ℕ} : Step parse s .silent (s.expire session)
  | otherSession {s : State} :
      Step parse s .silent { s with nextSession := s.nextSession + 1 }
  | connect {s : State} : s.client.handle = some none →
      Step parse s .silent
        { s with
          nextSession := s.nextSession + 1
          client := { s.client with handle := some (some s.nextSession) } }
  | onConnected {s : State} {session : ℕ} : s.client.handle = some (some session) →
      Step parse s .silent
        { s with client := s.client.onConnected session, dispatching := s.dispatching + 1 }
  | onState {s : State} {state : ConnectionState} : state = .disconnected ∨ state = .authFailed →
      Step parse s .silent
        { s with client := s.client.onState state, dispatching := s.dispatching + 1 }
  | onExpired {s : State} {session : ℕ} : s.client.handle = some (some session) →
      s.expired session = true →
      Step parse s .silent
        { s with client := s.client.onState .expired, dispatching := s.dispatching + 1 }
  -- The events of a closed handle are dropped with its watches.
  | recover {s : State} {created : Bool} : s.client.state = .expired →
      Step parse s .silent
        { s.noWatch with client := s.client.recover created, fired := fun _ => 0 }
  -- The observer.
  | dispatch {s : State} : 0 < s.dispatching →
      Step parse s .silent
        { s with dispatching := s.dispatching - 1, pending := fun _ => true }
  | deliver {s : State} {service : Service} : 0 < s.fired service →
      Step parse s .silent
        { s with
          fired := Function.update s.fired service (s.fired service - 1)
          pending := Function.update s.pending service true }
  | queueRefresh {s : State} {service : Service} :
      Step parse s .silent { s with pending := Function.update s.pending service true }
  -- `ControlLoop`, when it is woken or the tick has passed.
  | swap {s : State} : s.phase = .waiting →
      Step parse s .silent { s with pending := fun _ => false, phase := .swapped s.pending }
  | notConnected {s : State} {pending : Service → Bool} : s.phase = .swapped pending →
      s.client.state ≠ .connected →
      Step parse s .disconnected
        ((s.markAllRefreshFailed "ZooKeeper control plane is disconnected").go .waiting)
  | connected {s : State} {pending : Service → Bool} : s.phase = .swapped pending →
      s.client.state = .connected → Step parse s .silent (s.go (.connected pending))
  | observe {s : State} {pending : Service → Bool} : s.phase = .connected pending →
      Step parse s .silent (s.observe pending)
  | choose {s : State} {pending : Service → Bool} : s.phase = .choose pending →
      Step parse s .silent (s.go (.refresh (s.chosen pending)))
  | next {s : State} {rest : Service → Bool} {service : Service} : s.phase = .refresh rest →
      rest service = true →
      Step parse s .silent (s.go (.getChildren service (Function.update rest service false)))
  | done {s : State} {rest : Service → Bool} : s.phase = .refresh rest →
      (∀ service, rest service = false) → Step parse s .silent (s.go .waiting)
  -- `RefreshService`.
  | getChildren {s : State} {service : Service} {rest : Service → Bool} {session : ℕ}
      {children : List (Bytes × Node)} : (s.phase = .getChildren service rest ∨
        s.phase = .getChildrenAgain service rest) → s.Alive session →
      s.children service = some children →
      Step parse s .silent
        { s with
          childWatch := Function.update s.childWatch service true
          phase := .child service rest (sortNames (children.map Prod.fst)) [] }
  | getChildrenNoNode {s : State} {service : Service} {rest : Service → Bool} {session : ℕ} :
      s.phase = .getChildren service rest → s.Alive session → s.children service = none →
      Step parse s .silent (s.go (.exists service rest))
  | exists {s : State} {service : Service} {rest : Service → Bool} {session : ℕ}
      {children : List (Bytes × Node)} : s.phase = .exists service rest → s.Alive session →
      s.children service = some children →
      Step parse s .silent
        { s with
          existsWatch := Function.update s.existsWatch service true
          phase := .getChildrenAgain service rest }
  | existsNot {s : State} {service : Service} {rest : Service → Bool} {session : ℕ} :
      s.phase = .exists service rest → s.Alive session → s.children service = none →
      Step parse s (.published service)
        (State.publishSnapshot
          { s with
            existsWatch := Function.update s.existsWatch service true
            phase := .refresh rest } service [])
  | childExists {s : State} {service : Service} {rest : Service → Bool} {child : Bytes}
      {children : List Bytes} {candidate : List ServiceInstance} {session : ℕ} {node : Node} :
      s.phase = .child service rest (child :: children) candidate → s.Alive session →
      nodeAt s service child = some node →
      Step parse s .silent
        (s.go (.get service rest child children candidate node.data.length))
  | childGet {s : State} {service : Service} {rest : Service → Bool} {child : Bytes}
      {children : List Bytes} {candidate : List ServiceInstance} {length session : ℕ} {node : Node} :
      s.phase = .get service rest child children candidate length → s.Alive session →
      nodeAt s service child = some node →
      Step parse s .silent
        (s.go (.child service rest children
          (consider parse service child (node.read length) candidate)))
  -- The child has vanished.
  | childNoNode {s : State} {service : Service} {rest : Service → Bool} {child : Bytes}
      {children : List Bytes} {candidate : List ServiceInstance} {session : ℕ} :
      (s.phase = .child service rest (child :: children) candidate ∨
        ∃ length, s.phase = .get service rest child children candidate length) →
      s.Alive session → nodeAt s service child = none →
      Step parse s .silent (s.go (.child service rest children candidate))
  | publish {s : State} {service : Service} {rest : Service → Bool}
      {candidate : List ServiceInstance} : s.phase = .child service rest [] candidate →
      Step parse s (.published service)
        ((s.go (.refresh rest)).publishSnapshot service (sortCandidate candidate))
  | readFailed {s : State} {service : Service} {rest : Service → Bool} {error : String} :
      (s.phase = .getChildren service rest ∨ s.phase = .getChildrenAgain service rest ∨
        s.phase = .exists service rest ∨
        (∃ children candidate, s.phase = .child service rest children candidate ∧ children ≠ []) ∨
        ∃ child children candidate length,
          s.phase = .get service rest child children candidate length) →
      Step parse s (.failed service) ((s.go (.refresh rest)).markRefreshFailed service error)

end TinyImx.Registry.ZooKeeper.Discovery
