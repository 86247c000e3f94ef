import Mathlib.Logic.Function.Basic
import Mathlib.Data.List.Nodup
import TinyImx.Lib.Run
import TinyImx.Local.EventIds

/-!
# The connections of a server

The base loop accepts connections and hands each to a loop that runs it.  A connection that closes
goes back to the base loop, which takes it out of its map and sends `ConnectDestroyed` to the loop of
the connection.  `Stop` runs on the base loop: it empties the map, destroys the connections of the
base loop itself, sends `ConnectDestroyed` to the loops of the others, waits until these have run,
and tears the loops down.

A step is what one thread does before another can tell the difference.  Every loop handles the events
that one wait reported, and runs functors when no such event is left.
-/

namespace TinyImx.Net.TcpServer

open TinyImx.Local (Bytes decimal ascii)

inductive Loop
  | base
  | io (i : ℕ)
  deriving DecidableEq

inductive ConnState
  | connecting
  | connected
  | disconnected
  deriving DecidableEq

inductive Callback
  | connected
  | message
  | disconnected
  deriving DecidableEq

inductive Place
  | mapped
  | handing
  | removing
  /-- Out of the map; `ConnectDestroyed` is queued. -/
  | removed
  /-- `Stop` has it and is to queue `ConnectDestroyed`. -/
  | stopping
  /-- `Stop` has queued `ConnectDestroyed`. -/
  | cleaning
  /-- `ConnectDestroyed` has run. -/
  | gone
  deriving DecidableEq

structure Conn where
  loop : Loop
  state : ConnState
  reading : Bool
  /-- `ConnectEstablished` has run. -/
  established : Bool
  log : List Callback
  place : Place

inductive Kind
  | established
  | remove
  | destroyed
  /-- `ConnectDestroyed` for `Stop`, which counts it. -/
  | cleanup
  | forceClose
  deriving DecidableEq

structure Functor where
  kind : Kind
  conn : ℕ
  deriving DecidableEq

structure Event where
  conn : ℕ
  closes : Bool
  deriving DecidableEq

/-- Where `Stop` is. -/
inductive Stop
  | notCalled
  | queueing (todo : List ℕ)
  | returned
  deriving DecidableEq

structure State where
  started : Bool
  stop : Stop
  /-- `pending_cleanup`. -/
  pendingCleanup : ℕ
  owed : List ℕ
  conns : ℕ → Option Conn
  nextConnectionId : ℕ
  /-- `connections_`, by id. -/
  connections : List ℕ
  connectionCount : ℕ
  acceptedTotal : ℕ
  closedTotal : ℕ
  queue : Loop → List Functor
  reported : Loop → List Event
  handing : Loop → Option ℕ

def connectionName (name : Bytes) (id : ℕ) (peer : Bytes) : Bytes :=
  name ++ ascii "-conn-" ++ decimal id ++ 45 :: peer

namespace Conn

def establish (r : Conn) : Conn :=
  { r with state := .connected, reading := true, established := true, log := r.log ++ [.connected] }

def close (r : Conn) : Conn := { r with state := .disconnected, reading := false }

def destroy (r : Conn) : Conn :=
  { r with
    state := .disconnected, reading := false, log := r.log ++ [.disconnected], place := .gone }

end Conn

namespace State

def init : State where
  started := true
  stop := .notCalled
  pendingCleanup := 0
  owed := []
  conns := fun _ => none
  nextConnectionId := 0
  connections := []
  connectionCount := 0
  acceptedTotal := 0
  closedTotal := 0
  queue := fun _ => []
  reported := fun _ => []
  handing := fun _ => none

def update (s : State) (c : ℕ) (f : Conn → Conn) : State :=
  { s with conns := Function.update s.conns c ((s.conns c).map f) }

def push (s : State) (l : Loop) (f : Functor) : State :=
  { s with queue := Function.update s.queue l (s.queue l ++ [f]) }

/-- `HandleAccept` for one connection that goes to the loop `l`: the base loop establishes its own
connections at once. -/
def accept (s : State) (l : Loop) : State :=
  let c := s.nextConnectionId
  let r : Conn := ⟨l, .connecting, false, false, [], .mapped⟩
  let s := { s with
    conns := Function.update s.conns c (some (if l = .base then r.establish else r))
    nextConnectionId := c + 1
    connections := s.connections ++ [c]
    connectionCount := s.connections.length + 1
    acceptedTotal := s.acceptedTotal + 1 }
  if l = .base then s else s.push l ⟨.established, c⟩

def removeConnectionInLoop (s : State) (c : ℕ) : State :=
  match s.conns c with
  | none => s
  | some r =>
    if c ∈ s.connections then
      ({ s with
        connections := s.connections.erase c
        connectionCount := (s.connections.erase c).length
        closedTotal := s.closedTotal + 1 }.update c fun r => { r with place := .removed }).push
          r.loop ⟨.destroyed, c⟩
    else s

/-- `HandleClose` with the close callback, on the loop of the connection: the base loop removes the
connection at once, and an I/O thread is about to send it there. -/
def handleClose (s : State) (c : ℕ) : State :=
  match s.conns c with
  | none => s
  | some r =>
    if r.state = .disconnected then s
    else
      let s := s.update c Conn.close
      if s.started then
        if r.loop = .base then s.removeConnectionInLoop c
        else { s.update c (fun r => { r with place := .handing }) with
          handing := Function.update s.handing r.loop (some c) }
      else s

def forceCloseInLoop (s : State) (l : Loop) (c : ℕ) : State :=
  match s.conns c with
  | none => s
  | some r => if r.loop = l ∧ r.state = .connected then s.handleClose c else s

def run (s : State) (l : Loop) (f : Functor) : State :=
  match f.kind with
  | .established => s.update f.conn Conn.establish
  | .destroyed => s.update f.conn Conn.destroy
  | .cleanup =>
    { s.update f.conn Conn.destroy with
      pendingCleanup := s.pendingCleanup - 1
      owed := s.owed.erase f.conn }
  | .remove => s.removeConnectionInLoop f.conn
  | .forceClose => s.forceCloseInLoop l f.conn

/-- The connections of the map that `Stop` cleans up on other loops. -/
def remote (s : State) : List ℕ :=
  s.connections.filter fun c => (s.conns c).any fun r => r.loop ≠ .base

def beginStop (s : State) : State :=
  { s with
    started := false
    stop := .queueing s.remote
    pendingCleanup := s.remote.length
    owed := s.remote
    conns := fun c =>
      if c ∈ s.connections then (s.conns c).map fun r =>
        if r.loop = .base then r.destroy else { r with place := .stopping }
      else s.conns c
    connections := []
    connectionCount := 0
    closedTotal := s.closedTotal + s.connections.length }

end State

inductive Act
  | accept (l : Loop)
  | poll (l : Loop) (events : List Event)
  | event (l : Loop)
  | functor (l : Loop)
  | hand (l : Loop)
  /-- `ForceClose` of another thread, as the check for idle connections makes it. -/
  | forceClose (c : ℕ)
  /-- `ForceClose` on a loop. -/
  | forceCloseInLoop (l : Loop) (c : ℕ)
  | stop
  /-- `Stop` queues the next clean-up. -/
  | stopQueue
  | stopReturn
  deriving DecidableEq

namespace State

/-- The thread of the loop can go on: the base loop is not inside `Stop`, an I/O thread is not about
to send a connection, and I/O loops end with `Stop`. -/
def free (s : State) : Loop → Bool
  | .base => match s.stop with
    | .queueing _ => false
    | _ => true
  | .io i => s.stop ≠ .returned && (s.handing (.io i)).isNone

def reports (s : State) (l : Loop) (e : Event) : Bool :=
  (s.conns e.conn).any fun r => r.loop = l && r.reading

def enabled (s : State) : Act → Bool
  | .accept _ => s.started && s.free .base
  | .poll l events => s.free l && s.reported l = [] && events.all (s.reports l)
  | .event l => s.free l && s.reported l ≠ []
  | .functor l => s.free l && s.reported l = [] && s.queue l ≠ []
  | .hand l => s.stop ≠ .returned && (s.handing l).isSome
  | .forceClose c => (s.conns c).isSome
  | .forceCloseInLoop l _ => s.free l
  | .stop => s.started && s.free .base
  | .stopQueue => match s.stop with
    | .queueing (_ :: _) => true
    | _ => false
  | .stopReturn => s.stop = .queueing [] && s.pendingCleanup = 0

def apply (s : State) : Act → State
  | .accept l => s.accept l
  | .poll l events => { s with reported := Function.update s.reported l events }
  | .event l => match s.reported l with
    | [] => s
    | e :: events =>
      let s := { s with reported := Function.update s.reported l events }
      if e.closes then s.handleClose e.conn
      else s.update e.conn fun r => { r with log := r.log ++ [.message] }
  | .functor l => match s.queue l with
    | [] => s
    | f :: functors => { s with queue := Function.update s.queue l functors }.run l f
  | .hand l => match s.handing l with
    | none => s
    | some c =>
      ({ s with handing := Function.update s.handing l none }.update c fun r =>
        { r with place := .removing }).push .base ⟨.remove, c⟩
  | .forceClose c => match s.conns c with
    | none => s
    | some r => s.push r.loop ⟨.forceClose, c⟩
  | .forceCloseInLoop l c => s.forceCloseInLoop l c
  | .stop => s.beginStop
  | .stopQueue => match s.stop with
    | .queueing (c :: todo) => match s.conns c with
      | none => s
      | some r => ({ s with stop := .queueing todo }.update c fun r =>
          { r with place := .cleaning }).push r.loop ⟨.cleanup, c⟩
    | _ => s
  | .stopReturn => { s with stop := .returned }

end State

def Step (s : State) (a : Act) (s' : State) : Prop := s.enabled a = true ∧ s' = s.apply a

/-- `Stop` is called when no connection is on its way out, and no event of the base loop is waiting to
be handled. -/
def Good (s : State) : Act → Prop
  | .stop => s.reported .base = [] ∧ (∀ l, s.handing l = none) ∧
      ∀ l, ∀ f ∈ s.queue l, f.kind ≠ .remove ∧ f.kind ≠ .destroyed
  | _ => True

def GoodStep (s : State) (a : Act) (s' : State) : Prop := Step s a s' ∧ Good s a

end TinyImx.Net.TcpServer
