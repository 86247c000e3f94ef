import Mathlib.Algebra.Ring.Nat
import Mathlib.Data.Finset.Basic
import Mathlib.Logic.Function.Basic
import Mathlib.Logic.Relation

/-!
# Sessions of the gateway

`SessionManager` binds users to connections.  A session is kept under its user and, in reverse, under
the name of its connection; every bind is a new generation with an epoch of its own.  The manager
keeps weak references: `alive` are the connection objects that still exist.
-/

namespace TinyImx.Gateway.Session

variable {Conn : Type} [DecidableEq Conn]

structure SessionRecord (Conn : Type) where
  connection : Conn
  epoch : ℕ
  connectionKey : String

structure ConnectionSessionRecord where
  userId : ℕ
  epoch : ℕ

structure Manager (Conn : Type) where
  userSessions : ℕ → Option (SessionRecord Conn)
  connectionSessions : String → Option ConnectionSessionRecord
  nextEpoch : ℕ

structure BindResult (Conn : Type) where
  success : Bool
  replaced : Bool
  oldConnection : Option Conn
  epoch : ℕ

structure UnbindResult where
  unbound : Bool
  userId : ℕ
  epoch : ℕ

def lock (alive : Finset Conn) (c : Conn) : Option Conn := if c ∈ alive then some c else none

def Manager.eraseUser (m : Manager Conn) (u : ℕ) : Manager Conn :=
  { m with userSessions := Function.update m.userSessions u none }

def Manager.eraseConnection (m : Manager Conn) (key : String) : Manager Conn :=
  { m with connectionSessions := Function.update m.connectionSessions key none }

/-- `AllocateEpochLocked`; zero stays invalid when the counter wraps around. -/
def Manager.allocateEpoch (m : Manager Conn) : ℕ × Manager Conn :=
  let epoch := if m.nextEpoch = 0 then 1 else m.nextEpoch
  let next := (epoch + 1) % 2 ^ 64
  (epoch, { m with nextEpoch := if next = 0 then 1 else next })

/-- The first part of `BindOrReplace`: the user's old session goes. -/
def Manager.clearUser (m : Manager Conn) (alive : Finset Conn) (u : ℕ) (key : String) :
    Option Conn × Manager Conn :=
  match m.userSessions u with
  | none => (none, m)
  | some old =>
    let oldConnection := if old.connectionKey ≠ key then lock alive old.connection else none
    let m' := match m.connectionSessions old.connectionKey with
      | some reverse => if reverse.userId = u ∧ reverse.epoch = old.epoch then
          m.eraseConnection old.connectionKey else m
      | none => m
    (oldConnection, m'.eraseUser u)

def Manager.clearConnection (m : Manager Conn) (key : String) : Manager Conn :=
  match m.connectionSessions key with
  | none => m
  | some owner =>
    let m' := match m.userSessions owner.userId with
      | some session => if session.epoch = owner.epoch ∧ session.connectionKey = key then
          m.eraseUser owner.userId else m
      | none => m
    m'.eraseConnection key

def Manager.enter (m : Manager Conn) (u : ℕ) (c : Conn) (key : String) (epoch : ℕ) : Manager Conn :=
  { m with
    userSessions := Function.update m.userSessions u (some ⟨c, epoch, key⟩)
    connectionSessions := Function.update m.connectionSessions key (some ⟨u, epoch⟩) }

variable (name : Conn → String)

def bindOrReplace (alive : Finset Conn) (u : ℕ) (connection : Option Conn) (m : Manager Conn) :
    BindResult Conn × Manager Conn :=
  match connection with
  | none => (⟨false, false, none, 0⟩, m)
  | some c =>
    if u = 0 ∨ name c = "" then (⟨false, false, none, 0⟩, m)
    else
      let cleared := m.clearUser alive u (name c)
      let allocated := (cleared.2.clearConnection (name c)).allocateEpoch
      (⟨true, cleared.1.isSome, cleared.1, allocated.1⟩,
        allocated.2.enter u c (name c) allocated.1)

def unbindIfCurrent (alive : Finset Conn) (connection : Option Conn) (m : Manager Conn) :
    UnbindResult × Manager Conn :=
  match connection with
  | none => (⟨false, 0, 0⟩, m)
  | some c =>
    if name c = "" then (⟨false, 0, 0⟩, m)
    else match m.connectionSessions (name c) with
      | none => (⟨false, 0, 0⟩, m)
      | some reverse => match m.userSessions reverse.userId with
        | none => (⟨false, 0, 0⟩, m.eraseConnection (name c))
        | some current =>
          let sameGeneration := current.epoch = reverse.epoch ∧ current.connectionKey = name c
          if ¬sameGeneration ∨ lock alive current.connection ≠ some c then
            let m' := m.eraseConnection (name c)
            (⟨false, 0, 0⟩, if sameGeneration ∧ lock alive current.connection = none then
              m'.eraseUser reverse.userId else m')
          else (⟨true, reverse.userId, reverse.epoch⟩,
            (m.eraseConnection (name c)).eraseUser reverse.userId)

def findSession (alive : Finset Conn) (u : ℕ) (m : Manager Conn) : Option (ℕ × Conn) :=
  if u = 0 then none
  else (m.userSessions u).bind fun record =>
    (lock alive record.connection).map fun c => (record.epoch, c)

def findSessionByConnection (alive : Finset Conn) (connection : Option Conn) (m : Manager Conn) :
    Option (ℕ × ℕ × Conn) :=
  connection.bind fun c =>
    if name c = "" then none
    else (m.connectionSessions (name c)).bind fun reverse =>
      (m.userSessions reverse.userId).bind fun record =>
        if record.epoch ≠ reverse.epoch ∨ record.connectionKey ≠ name c then none
        else if lock alive record.connection = some c then some (reverse.userId, reverse.epoch, c)
        else none

def isCurrent (alive : Finset Conn) (u epoch : ℕ) (connection : Option Conn) (m : Manager Conn) :
    Bool :=
  match connection with
  | none => false
  | some c =>
    if u = 0 ∨ epoch = 0 then false
    else match m.userSessions u with
      | none => false
      | some record =>
        if record.epoch ≠ epoch ∨ record.connectionKey ≠ name c then false
        else decide (lock alive record.connection = some c)

/-! ## Runs -/

inductive Entry (Conn : Type) where
  | bound (u : ℕ) (c : Conn) (epoch : ℕ)
  | unbound (c : Conn)

/-- The manager, the connection objects there are and there were, and what succeeded, newest first. -/
structure World (Conn : Type) where
  manager : Manager Conn
  alive : Finset Conn
  created : Finset Conn
  log : List (Entry Conn)

def World.bind (w : World Conn) (u : ℕ) (connection : Option Conn) : World Conn :=
  let answer := bindOrReplace name w.alive u connection w.manager
  { w with
    manager := answer.2
    log := match connection with
      | some c => if answer.1.success then .bound u c answer.1.epoch :: w.log else w.log
      | none => w.log }

def World.unbind (w : World Conn) (connection : Option Conn) : World Conn :=
  let answer := unbindIfCurrent name w.alive connection w.manager
  { w with
    manager := answer.2
    log := match connection with
      | some c => if answer.1.unbound then .unbound c :: w.log else w.log
      | none => w.log }

/-- The steps: a caller passes a null pointer or a connection it keeps alive, and a new connection has
a name that no other one has at the time. -/
inductive Step : World Conn → World Conn → Prop
  | create {w c} : c ∉ w.created → (∀ d ∈ w.alive, name d ≠ name c) →
      Step w { w with alive := insert c w.alive, created := insert c w.created }
  | expire {w} (c : Conn) : Step w { w with alive := w.alive.erase c }
  | bind {w} (u : ℕ) (connection : Option Conn) : (∀ c ∈ connection, c ∈ w.alive) →
      Step w (w.bind name u connection)
  | unbind {w} (connection : Option Conn) : (∀ c ∈ connection, c ∈ w.alive) →
      Step w (w.unbind name connection)

def start : World Conn where
  manager := ⟨fun _ => none, fun _ => none, 1⟩
  alive := ∅
  created := ∅
  log := []

end TinyImx.Gateway.Session
