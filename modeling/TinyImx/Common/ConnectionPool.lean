import Mathlib.Data.Multiset.AddSub
import Mathlib.Data.Multiset.Filter
import TinyImx.Lib.Run

/-!
# Connection pools

`MySqlConnectionPool` and `RedisConnectionPool` hand out connections as leases.  `Acquire` takes a
connection from the queue under the lock, checks it without the lock, and returns a lease or gives the
connection back; the reset of a lease gives it back through `Release`, which looks only at
`shutting_down_`.  The two pools differ in `Release`: that of MySQL first ends an open transaction.

The blocks under the lock are functions of the state; the steps put them together with what happens
between them.  A connection carries the number of the `Initialize` that made it, which the code does
not have.
-/

namespace TinyImx.Common.ConnectionPool

/-- `MySqlConfig` and `RedisConfig`, as far as the pools read them. -/
structure Config where
  enable : Bool
  poolSize : ℤ

structure Connection where
  id : ℕ
  /-- The `Initialize` that made it. -/
  generation : ℕ
  connected : Bool
  inTransaction : Bool

/-- A lease object: whether `pool_` is set, and `connection_`. -/
structure Lease where
  pool : Bool
  connection : Option Connection

structure State where
  config : Config
  initialized : Bool
  shuttingDown : Bool
  size : ℕ
  connections : List Connection
  /-- The number of the last `Initialize` that made connections, and the id of its first one. -/
  generation : ℕ
  first : ℕ
  nextId : ℕ
  /-- The calls of `Acquire` that wait for a connection. -/
  waiting : ℕ
  /-- The connections that a call of `Acquire` checks. -/
  probing : Multiset Connection
  leases : Multiset Lease
  /-- The connections in `Release`, before the look at their transaction. -/
  returning : Multiset Connection
  /-- The connections in `Release`, before the lock. -/
  settled : Multiset Connection

def State.initial : State where
  config := ⟨false, 0⟩
  initialized := false
  shuttingDown := false
  size := 0
  connections := []
  generation := 0
  first := 0
  nextId := 0
  waiting := 0
  probing := 0
  leases := 0
  returning := 0
  settled := 0

/-! ## The blocks under the lock -/

def State.fresh (s : State) (n : ℕ) : List Connection :=
  (List.range n).map fun i => ⟨s.nextId + i, s.generation + 1, true, false⟩

/-- `Initialize`, where `connects` connections succeed before one fails. -/
def State.initializePool (s : State) (config : Config) (connects : ℕ) : State × Bool :=
  if s.initialized then (s, true)
  else if !config.enable then (s, false)
  else if config.poolSize ≤ 0 then (s, false)
  else if connects < config.poolSize.toNat then
    ({ s with
      config := config, shuttingDown := false, connections := [], size := 0, initialized := false
      generation := s.generation + 1, first := s.nextId, nextId := s.nextId + connects + 1 }, false)
  else
    let connections := s.connections ++ s.fresh config.poolSize.toNat
    ({ s with
      config := config, shuttingDown := false, connections := connections
      size := connections.length, initialized := true
      generation := s.generation + 1, first := s.nextId
      nextId := s.nextId + config.poolSize.toNat }, true)

def State.shutdown (s : State) : State :=
  if !s.initialized && s.connections.isEmpty then s
  else { s with shuttingDown := true, connections := [], size := 0, initialized := false }

def State.release (s : State) (c : Connection) : State :=
  if s.shuttingDown then s else { s with connections := s.connections ++ [c] }

/-! ## Connections and leases -/

def Connection.close (c : Connection) : Connection :=
  { c with connected := false, inTransaction := false }

def Connection.reconnect (c : Connection) : Connection :=
  { c with connected := true, inTransaction := false }

/-- The start of `Release`: an open transaction is rolled back, or the connection is closed.  Redis
has no transactions. -/
def Connection.settle (transactions rollback : Bool) (c : Connection) : Connection :=
  if transactions && c.inTransaction then
    if rollback then { c with inTransaction := false } else c.close
  else c

def Lease.empty : Lease := ⟨false, none⟩

inductive Label where
  | silent
  | acquired (c : Connection)
  /-- `Acquire` fails with the connection it took. -/
  | acquireFailed (c : Connection)
  | release (c : Connection)

inductive Step (transactions : Bool) : State → Label → State → Prop
  | initializePool {s : State} {config : Config} {connects : ℕ} :
      Step transactions s .silent (s.initializePool config connects).1
  | shutdown {s : State} : Step transactions s .silent s.shutdown
  -- `Acquire`
  | arrive {s : State} : s.initialized = true → s.shuttingDown = false →
      Step transactions s .silent { s with waiting := s.waiting + 1 }
  | leave {s : State} {n : ℕ} : s.waiting = n + 1 →
      Step transactions s .silent { s with waiting := n }
  | take {s : State} {n : ℕ} {c : Connection} {rest : List Connection} : s.waiting = n + 1 →
      s.shuttingDown = false → s.connections = c :: rest →
      Step transactions s .silent { s with
        waiting := n, connections := rest, probing := c ::ₘ s.probing }
  | probed {s : State} {c c' : Connection} {rest : Multiset Connection} :
      s.probing = c ::ₘ rest → c.connected = true ∧ c' = c ∨ c' = c.reconnect →
      Step transactions s (.acquired c') { s with
        probing := rest, leases := ⟨true, some c'⟩ ::ₘ s.leases }
  | probeFailed {s : State} {c : Connection} {rest : Multiset Connection} :
      s.probing = c ::ₘ rest →
      Step transactions s (.acquireFailed c.close) { s with
        probing := rest, returning := c.close ::ₘ s.returning }
  -- The lease's holder
  | declare {s : State} : Step transactions s .silent { s with leases := .empty ::ₘ s.leases }
  | use {s : State} {p connected inTransaction : Bool} {c : Connection} {rest : Multiset Lease} :
      s.leases = ⟨p, some c⟩ ::ₘ rest → (inTransaction = true → transactions = true) →
      Step transactions s .silent { s with
        leases := ⟨p, some { c with
          connected := connected, inTransaction := inTransaction }⟩ ::ₘ rest }
  | moveConstruct {s : State} {other : Lease} {rest : Multiset Lease} :
      s.leases = other ::ₘ rest →
      Step transactions s .silent { s with
        leases := ⟨other.pool, other.connection⟩ ::ₘ .empty ::ₘ rest }
  -- After the `Reset` of the lease that is assigned to
  | moveAssign {s : State} {other : Lease} {rest : Multiset Lease} :
      s.leases = .empty ::ₘ other ::ₘ rest →
      Step transactions s .silent { s with
        leases := ⟨other.pool, other.connection⟩ ::ₘ .empty ::ₘ rest }
  | resetEmpty {s : State} {p : Bool} {rest : Multiset Lease} : s.leases = ⟨p, none⟩ ::ₘ rest →
      Step transactions s .silent { s with leases := .empty ::ₘ rest }
  | reset {s : State} {c : Connection} {rest : Multiset Lease} :
      s.leases = ⟨true, some c⟩ ::ₘ rest →
      Step transactions s .silent { s with
        leases := .empty ::ₘ rest, returning := c ::ₘ s.returning }
  | resetLoose {s : State} {c : Connection} {rest : Multiset Lease} :
      s.leases = ⟨false, some c⟩ ::ₘ rest →
      Step transactions s .silent { s with leases := .empty ::ₘ rest }
  | destroy {s : State} {rest : Multiset Lease} : s.leases = .empty ::ₘ rest →
      Step transactions s .silent { s with leases := rest }
  -- `Release`
  | settle {s : State} {c : Connection} {rest : Multiset Connection} {rollback : Bool} :
      s.returning = c ::ₘ rest →
      Step transactions s .silent { s with
        returning := rest, settled := c.settle transactions rollback ::ₘ s.settled }
  | release {s : State} {c : Connection} {rest : Multiset Connection} : s.settled = c ::ₘ rest →
      Step transactions s (.release c) ({ s with settled := rest }.release c)

end TinyImx.Common.ConnectionPool
