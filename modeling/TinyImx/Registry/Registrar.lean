import TinyImx.Lib.Run
import TinyImx.Registry.ZooKeeperClient

/-!
# The service registrar

`ZooKeeperServiceRegistrar` keeps an ephemeral node at its registration path.  Its control loop, the
loop of `RegisterWithin` and `Stop` are sequences of calls of the client, each of which is a step;
session events, expiries, the client's recovery and the other processes at the same path come between
any two of them.
-/

namespace TinyImx.Registry.ZooKeeper

open TinyImx.Local (Bytes)

inductive RegistrarError where
  | none
  | createFailed (status : OperationStatus)
  | readFailed (status : OperationStatus)
  | ensureParentFailed (status : OperationStatus)
  | ownedByAnother
  | dataDiffers
  | timeout
  deriving DecidableEq

/-- Who called `RegisterWithin`. -/
inductive Origin where
  | start | control

inductive Phase where
  | stopped
  | idle
  | checkConnected (generation : ℕ)
  | check (generation : ℕ) (connected : Bool)
  /-- The head of the loop of `RegisterWithin`. -/
  | within (origin : Origin)
  | ensureParents (origin : Origin)
  | create (origin : Origin)
  | exists (origin : Origin)
  | get (origin : Origin) (length : ℕ)
  | session (origin : Origin) (node : NodeRecord)
  /-- The node was found to belong to the session `session`; its generation is to be recorded. -/
  | record (origin : Origin) (session : ℕ)
  | stopConnected
  | stopExists
  | stopGet (length : ℕ)
  /-- A record was read, of the node that `czxid` created. -/
  | stopSession (node : NodeRecord) (czxid : ℕ)
  | stopDelete (node : NodeRecord) (czxid : ℕ)
  | stopFinish

structure Server where
  node : Option Node
  expired : ℕ → Bool
  nextSession : ℕ
  nextZxid : ℕ

structure State where
  server : Server
  client : Client
  mine : ℕ → Bool
  registered : Bool
  registeredGeneration : ℕ
  lastError : RegistrarError
  phase : Phase

namespace Server

def expire (server : Server) (session : ℕ) : Server :=
  { server with
    node := server.node.filter fun node => node.ephemeralOwner ≠ session
    expired := Function.update server.expired session true }

def create (server : Server) (data : Bytes) (owner : ℕ) : Server :=
  { server with
    node := some ⟨data, owner, 0, server.nextZxid⟩
    nextZxid := server.nextZxid + 1 }

def delete (server : Server) : Server := { server with node := none }

def setData (server : Server) (data : Bytes) : Server :=
  { server with node := server.node.map fun node => { node with data, version := node.version + 1 } }

end Server

def Origin.failed : Origin → Phase
  | .start => .stopped
  | .control => .idle

def Phase.operationFree : Phase → Bool
  | .get _ _ | .stopGet _ => false
  | _ => true

namespace State

def Alive (s : State) (session : ℕ) : Prop :=
  s.client.handle = some (some session) ∧ s.server.expired session = false

def go (s : State) (phase : Phase) : State := { s with phase }

def fail (s : State) (error : RegistrarError) (phase : Phase) : State :=
  { s with lastError := error, phase }

def giveUp (s : State) (origin : Origin) : State :=
  if s.lastError = .ownedByAnother then s.go origin.failed else s.fail .timeout origin.failed

def checked (s : State) (generation : ℕ) (connected : Bool) : State :=
  let registered := s.registered && s.registeredGeneration = generation
  { s with
    registered
    phase :=
      if connected && (!registered || s.registeredGeneration ≠ generation) then .within .control
      else .idle }

def afterCreate (s : State) (origin : Origin) : OperationStatus → State
  | .ok | .nodeExists | .connectionLoss | .sessionExpired | .notConnected => s.go (.exists origin)
  | status => s.fail (.createFailed status) origin.failed

def afterReadFailed (s : State) (origin : Origin) : OperationStatus → State
  | .noNode | .connectionLoss | .sessionExpired | .notConnected => s.go (.within origin)
  | status => s.fail (.readFailed status) origin.failed

/-- `ReconcileOnce` on the record it read and the id of the session. -/
def afterSession (s : State) (serialized : Bytes) (origin : Origin) (node : NodeRecord) : State :=
  if node.ephemeralOwner ≠ s.client.sessionId then s.fail .ownedByAnother (.within origin)
  else if node.data ≠ serialized then s.fail .dataDiffers origin.failed
  else s.go (.record origin s.client.sessionId)

def recorded (s : State) : State :=
  { s with
    registered := true
    registeredGeneration := s.client.sessionGeneration
    lastError := .none
    phase := .idle }

def afterEnsureParents (s : State) (origin : Origin) : OperationStatus → State
  | .ok => s.go (.create origin)
  | .connectionLoss | .sessionExpired | .notConnected => s.go (.within origin)
  | status => s.fail (.ensureParentFailed status) (.within origin)

/-- `UnregisterOwnedNode` on the record it read and the id of the session. -/
def afterStopSession (s : State) (node : NodeRecord) (czxid : ℕ) : State :=
  if node.ephemeralOwner ≠ s.client.sessionId then s.go .stopFinish
  else s.go (.stopDelete node czxid)

end State

inductive Label where
  | silent
  /-- `RegisterWithin` records the generation. -/
  | recorded
  /-- The delete of `Stop` removes a node, after it found the record `checked`. -/
  | deleted (checked : NodeRecord) (node : Node)
  | foreignWrite

def State.initial (server : Server) : State :=
  ⟨server, .start, fun _ => false, false, 0, .none, .stopped⟩

inductive Step (serialized : Bytes) : State → Label → State → Prop
  -- The server and the other processes.
  | expire {s : State} {session : ℕ} : session ≠ 0 →
      Step serialized s .silent { s with server := s.server.expire session }
  | foreignCreate {s : State} {data : Bytes} {owner : ℕ} : s.server.node = none →
      s.mine owner = false → owner < s.server.nextSession → s.server.expired owner = false →
      Step serialized s .silent { s with server := s.server.create data owner }
  | foreignSession {s : State} : Step serialized s .silent
      { s with server := { s.server with nextSession := s.server.nextSession + 1 } }
  | foreignDelete {s : State} : Step serialized s .foreignWrite { s with server := s.server.delete }
  | foreignSetData {s : State} {data : Bytes} :
      Step serialized s .foreignWrite { s with server := s.server.setData data }
  -- The client.
  | connect {s : State} : s.client.handle = some none →
      Step serialized s .silent
        { s with
          server := { s.server with nextSession := s.server.nextSession + 1 }
          client := { s.client with handle := some (some s.server.nextSession) }
          mine := Function.update s.mine s.server.nextSession true }
  | onConnected {s : State} {session : ℕ} : s.client.handle = some (some session) →
      Step serialized s .silent { s with client := s.client.onConnected session }
  | onState {s : State} {state : ConnectionState} : state = .disconnected ∨ state = .authFailed →
      Step serialized s .silent { s with client := s.client.onState state }
  | onExpired {s : State} {session : ℕ} : s.client.handle = some (some session) →
      s.server.expired session = true →
      Step serialized s .silent { s with client := s.client.onState .expired }
  | recover {s : State} {created : Bool} : s.client.state = .expired →
      s.phase.operationFree = true →
      Step serialized s .silent { s with client := s.client.recover created }
  -- `Start` and the control loop.
  | start {s : State} : s.phase = .stopped → Step serialized s .silent (s.go (.within .start))
  | readGeneration {s : State} : s.phase = .idle →
      Step serialized s .silent (s.go (.checkConnected s.client.sessionGeneration))
  | readConnected {s : State} {generation : ℕ} : s.phase = .checkConnected generation →
      Step serialized s .silent (s.go (.check generation (s.client.state = .connected)))
  | check {s : State} {generation : ℕ} {connected : Bool} : s.phase = .check generation connected →
      Step serialized s .silent (s.checked generation connected)
  -- `RegisterWithin`.
  | giveUp {s : State} {origin : Origin} : s.phase = .within origin →
      Step serialized s .silent (s.giveUp origin)
  | within {s : State} {origin : Origin} : s.phase = .within origin → s.client.state = .connected →
      Step serialized s .silent (s.go (.ensureParents origin))
  | ensureParents {s : State} {origin : Origin} {status : OperationStatus} :
      s.phase = .ensureParents origin → (status = .ok ∨ s.client.Fails status) →
      Step serialized s .silent (s.afterEnsureParents origin status)
  | create {s : State} {origin : Origin} {session : ℕ} {status : OperationStatus} :
      s.phase = .create origin → s.Alive session → s.server.node = none →
      (status = .ok ∨ s.client.Fails status) →
      Step serialized s .silent
        (State.afterCreate { s with server := s.server.create serialized session } origin status)
  | createExists {s : State} {origin : Origin} {session : ℕ} {node : Node} :
      s.phase = .create origin → s.Alive session → s.server.node = some node →
      Step serialized s .silent (s.afterCreate origin .nodeExists)
  -- The parent is gone.
  | createNoNode {s : State} {origin : Origin} {session : ℕ} :
      s.phase = .create origin → s.Alive session → s.server.node = none →
      Step serialized s .silent (s.afterCreate origin .noNode)
  | createFailed {s : State} {origin : Origin} {status : OperationStatus} :
      s.phase = .create origin → s.client.Fails status →
      Step serialized s .silent (s.afterCreate origin status)
  | exists {s : State} {origin : Origin} {session : ℕ} {node : Node} :
      s.phase = .exists origin → s.Alive session → s.server.node = some node →
      Step serialized s .silent (s.go (.get origin node.data.length))
  | get {s : State} {origin : Origin} {length session : ℕ} {node : Node} :
      s.phase = .get origin length → s.Alive session → s.server.node = some node →
      Step serialized s .silent (s.go (.session origin (node.read length)))
  | readNoNode {s : State} {origin : Origin} {session : ℕ} :
      (s.phase = .exists origin ∨ ∃ length, s.phase = .get origin length) → s.Alive session →
      s.server.node = none → Step serialized s .silent (s.afterReadFailed origin .noNode)
  | readFailed {s : State} {origin : Origin} {status : OperationStatus} :
      (s.phase = .exists origin ∨ ∃ length, s.phase = .get origin length) →
      s.client.Fails status → Step serialized s .silent (s.afterReadFailed origin status)
  | session {s : State} {origin : Origin} {node : NodeRecord} : s.phase = .session origin node →
      Step serialized s .silent (s.afterSession serialized origin node)
  | record {s : State} {origin : Origin} {session : ℕ} : s.phase = .record origin session →
      Step serialized s .recorded s.recorded
  -- `Stop`, once the control thread has ended.
  | stop {s : State} : s.phase = .idle ∨ s.phase = .stopped →
      Step serialized s .silent (s.go .stopConnected)
  | stopConnected {s : State} : s.phase = .stopConnected →
      Step serialized s .silent
        (s.go (if s.client.state = .connected then .stopExists else .stopFinish))
  | stopExists {s : State} {session : ℕ} {node : Node} : s.phase = .stopExists → s.Alive session →
      s.server.node = some node → Step serialized s .silent (s.go (.stopGet node.data.length))
  | stopGet {s : State} {length session : ℕ} {node : Node} : s.phase = .stopGet length →
      s.Alive session → s.server.node = some node →
      Step serialized s .silent (s.go (.stopSession (node.read length) node.czxid))
  -- There is no node, or a call fails.
  | stopRead {s : State} : (s.phase = .stopExists ∨ ∃ length, s.phase = .stopGet length) →
      Step serialized s .silent (s.go .stopFinish)
  | stopSession {s : State} {node : NodeRecord} {czxid : ℕ} : s.phase = .stopSession node czxid →
      Step serialized s .silent (s.afterStopSession node czxid)
  -- The reply of a delete that takes effect may be lost.
  | stopDelete {s : State} {checked : NodeRecord} {node : Node} {czxid session : ℕ} :
      s.phase = .stopDelete checked czxid → s.Alive session → s.server.node = some node →
      node.version = checked.version →
      Step serialized s (.deleted checked node)
        { s with server := s.server.delete, phase := .stopFinish }
  | stopDeleteFailed {s : State} {checked : NodeRecord} {czxid : ℕ} :
      s.phase = .stopDelete checked czxid → Step serialized s .silent (s.go .stopFinish)
  | stopFinish {s : State} : s.phase = .stopFinish →
      Step serialized s .silent
        { s with registered := false, registeredGeneration := 0, phase := .stopped }

end TinyImx.Registry.ZooKeeper
