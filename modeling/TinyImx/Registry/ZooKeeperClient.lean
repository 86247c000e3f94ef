import Mathlib.Data.Nat.Notation
import TinyImx.Local.Types

/-!
# The ZooKeeper client

What `ZooKeeperClient` keeps of its session, and what `OnWatcher` and `RecoveryLoop` make of it.  The
library's handle gets a session when it connects; operations run in the handle's session, which the
watcher may come to know of later.
-/

namespace TinyImx.Registry.ZooKeeper

open TinyImx.Local (Bytes)

inductive ConnectionState where
  | stopped | connecting | connected | disconnected | expired | authFailed
  deriving DecidableEq

inductive OperationStatus where
  | ok | nodeExists | noNode | connectionLoss | sessionExpired | authFailed | notConnected
  | invalidArgument | error
  deriving DecidableEq

structure Client where
  /-- None for a null handle, `some none` for one that has no session yet. -/
  handle : Option (Option ℕ)
  sessionId : ℕ
  sessionGeneration : ℕ
  state : ConnectionState

namespace Client

def start : Client := ⟨some none, 0, 0, .connecting⟩

/-- `OnWatcher` for the connected state, with the session of the handle. -/
def onConnected (c : Client) (session : ℕ) : Client :=
  { c with
    sessionGeneration :=
      if c.sessionGeneration = 0 ∨ (session ≠ 0 ∧ session ≠ c.sessionId) then
        c.sessionGeneration + 1
      else c.sessionGeneration
    sessionId := if session ≠ 0 then session else c.sessionId
    state := .connected }

def onState (c : Client) (state : ConnectionState) : Client := { c with state }

/-- `RecoveryLoop` closes the handle and makes a new one, or fails to. -/
def recover (c : Client) (created : Bool) : Client :=
  if created then { c with handle := some none, state := .connecting }
  else { c with handle := none, state := .expired }

def Fails (c : Client) (status : OperationStatus) : Prop :=
  if c.handle = none then status = .notConnected
  else status = .connectionLoss ∨ status = .sessionExpired ∨ status = .authFailed ∨ status = .error

end Client

/-- A node and what the server says of it; `czxid` is the transaction that created it. -/
structure Node where
  data : Bytes
  ephemeralOwner : ℕ
  version : ℕ
  czxid : ℕ

/-- What `GetNode` returns of a node. -/
structure NodeRecord where
  data : Bytes
  ephemeralOwner : ℕ
  version : ℕ

def Node.read (node : Node) (length : ℕ) : NodeRecord :=
  ⟨node.data.take length, node.ephemeralOwner, node.version⟩

theorem Client.le_onConnected_generation (c : Client) (session : ℕ) :
    c.sessionGeneration ≤ (c.onConnected session).sessionGeneration := by
  unfold Client.onConnected
  grind

theorem Client.onConnected_generation_ne_zero (c : Client) (session : ℕ) :
    (c.onConnected session).sessionGeneration ≠ 0 := by
  unfold Client.onConnected
  grind

theorem Client.onConnected_current (c : Client) {session generation : ℕ}
    (hle : generation ≤ c.sessionGeneration)
    (h : generation = (c.onConnected session).sessionGeneration) :
    generation = c.sessionGeneration ∧ (c.onConnected session).sessionId = c.sessionId := by
  unfold Client.onConnected at h ⊢
  dsimp only at h ⊢
  grind

end TinyImx.Registry.ZooKeeper
