import Mathlib.Data.Finset.Card
import Mathlib.Data.Finset.Option
import TinyImx.Lib.Pool

/-!
# The pending-event budget, thread by thread

`pending_events`, the `E/` and `F/` keys and the pending index, as the threads of the store change
them: an `EventSlot` is reserved, prepared, written and committed, or dropped and given back, and
`MarkEventsPublished`, `MarkEventFailed` and `RequeueFailedEvents` take the event-state locks, look,
write, clean the index and subtract.  Each of these is a step of its own; an event id is any type.
-/

namespace TinyImx.Local.Pending

variable {Id : Type} [DecidableEq Id]

structure BookOptions (Id : Type) where
  /-- `options.max_pending_events` -/
  limit : ℕ
  /-- `pending_index_enabled` -/
  indexed : Bool
  /-- the mutex of `LockEventState` that guards an id; a constant without the shards -/
  stripe : Id → ℕ

structure Book (Id : Type) where
  pending : ℕ
  events : Finset Id
  failed : Finset Id
  /-- `pending_index`; an entry is named by the number of its allocation -/
  index : Id → Option ℕ
  /-- the entries whose `ready` flag is set -/
  ready : Finset ℕ
  allocated : ℕ
  taken : Finset Id

/-- An `EventSlot` during its life. -/
inductive Slot (Id : Type) where
  | reserved
  /-- after `Prepare`, with the entry it put into the index -/
  | prepared (id : Id) (entry : Option ℕ)
  /-- after a `Prepare` that threw -/
  | refused
  /-- the batch of the event is written, `Commit` has not run yet -/
  | written (id : Id) (entry : Option ℕ)
  | dropped

/-- How far a call that takes events off `E/` is. -/
inductive Removal (Id : Type) where
  | started
  | collected (ids : Finset Id)
  | removed (ids : Finset Id)
  | unindexed (ids : Finset Id)

/-- A call in flight: one that writes events, new ones or requeued ones, or one that takes events
off `E/`, published or quarantined ones. -/
inductive Worker (Id : Type) where
  | writer (requeue : Bool) (locks : Finset ℕ) (slots : Multiset (Slot Id))
  | remover (quarantine : Bool) (locks : Finset ℕ) (phase : Removal Id)

def Worker.locks : Worker Id → Finset ℕ
  | writer _ locks _ | remover _ locks _ => locks

def Slot.preparedId : Slot Id → Option Id
  | prepared id _ => some id
  | _ => none

def Slot.unwritten : Slot Id → Bool
  | written .. => false
  | _ => true

def Slot.write : Slot Id → Slot Id
  | prepared id entry => written id entry
  | slot => slot

def preparedIds (slots : Multiset (Slot Id)) : Multiset Id := slots.filterMap Slot.preparedId

/-- When a writer may prepare an event: a new event has a new id, and a requeued one is quarantined
and not pending, seen under its lock and once in the call. -/
def Named (o : BookOptions Id) (b : Book Id) (requeue : Bool) (locks : Finset ℕ)
    (slots : Multiset (Slot Id)) (id : Id) : Prop :=
  if requeue then id ∈ b.failed ∧ id ∉ b.events ∧ o.stripe id ∈ locks ∧ id ∉ preparedIds slots
  else id ∉ b.taken

def Book.prepare (b : Book Id) (o : BookOptions Id) (id : Id) : Book Id :=
  { b with
    index := if o.indexed then Function.update b.index id (some b.allocated) else b.index
    allocated := b.allocated + 1
    taken := insert id b.taken }

/-- The part of `~EventSlot` that takes the slot's own entry out of the index. -/
def Book.dropEntry (b : Book Id) : Slot Id → Book Id
  | .prepared id (some entry) =>
    if b.index id = some entry then { b with index := Function.update b.index id none } else b
  | _ => b

def Book.write (b : Book Id) (requeue : Bool) (ids : Finset Id) : Book Id :=
  { b with events := b.events ∪ ids, failed := if requeue then b.failed \ ids else b.failed }

def Book.remove (b : Book Id) (quarantine : Bool) (ids : Finset Id) : Book Id :=
  { b with events := b.events \ ids, failed := if quarantine then b.failed ∪ ids else b.failed }

def Book.unindex (b : Book Id) (o : BookOptions Id) (ids : Finset Id) : Book Id :=
  { b with index := fun id => if o.indexed ∧ id ∈ ids then none else b.index id }

/-- What a call in flight may do next.  A write that fails changes nothing: its slots are dropped, a
removal ends. -/
inductive Act (o : BookOptions Id) :
    Book Id → Multiset (Worker Id) → Worker Id → Book Id → Multiset (Worker Id) → Prop
  | reserve {b rest q l slots} : b.pending < o.limit →
      Act o b rest (.writer q l slots) { b with pending := b.pending + 1 }
        {.writer q l (.reserved ::ₘ slots)}
  | prepare {b rest q l slots id} : Named o b q l slots id → (o.indexed → b.index id = none) →
      Act o b rest (.writer q l (.reserved ::ₘ slots)) (b.prepare o id)
        {.writer q l (.prepared id (if o.indexed then some b.allocated else none) ::ₘ slots)}
  | refuse {b rest q l slots id} : Named o b q l slots id → o.indexed → b.index id ≠ none →
      Act o b rest (.writer q l (.reserved ::ₘ slots))
        { b with allocated := b.allocated + 1, taken := insert id b.taken }
        {.writer q l (.refused ::ₘ slots)}
  | drop {b rest q l slots slot} : slot.unwritten = true →
      Act o b rest (.writer q l (slot ::ₘ slots)) (b.dropEntry slot)
        {.writer q l (.dropped ::ₘ slots)}
  | giveBack {b rest q l slots} :
      Act o b rest (.writer q l (.dropped ::ₘ slots)) { b with pending := b.pending - 1 }
        {.writer q l slots}
  | write {b rest q l slots} : (∀ slot ∈ slots, (slot.preparedId).isSome) →
      Act o b rest (.writer q l slots) (b.write q (preparedIds slots).toFinset)
        {.writer q l (slots.map Slot.write)}
  | commit {b rest q l slots id entry} :
      Act o b rest (.writer q l (.written id entry ::ₘ slots))
        { b with ready := b.ready ∪ entry.toFinset } {.writer q l slots}
  | written {b rest q l} : Act o b rest (.writer q l 0) b 0
  | collect {b rest f l} (ids : Finset Id) : (∀ id ∈ ids, o.stripe id ∈ l) →
      Act o b rest (.remover f l .started) b {.remover f l (.collected (ids ∩ b.events))}
  | remove {b rest f l ids} : Act o b rest (.remover f l (.collected ids)) (b.remove f ids)
      {.remover f l (.removed ids)}
  | unindex {b rest f l ids} : Act o b rest (.remover f l (.removed ids)) (b.unindex o ids)
      {.remover f l (.unindexed ids)}
  | subtract {b rest f l ids} : Act o b rest (.remover f l (.unindexed ids))
      { b with pending := b.pending - ids.card } 0
  | quit {b rest f l phase} : (phase = .started ∨ ∃ ids, phase = .collected ids) →
      Act o b rest (.remover f l phase) b 0

/-- Which calls may start: new events take no event-state lock, the others take locks that are free. -/
inductive Spawn : Book Id → Multiset (Worker Id) → Worker Id → Prop
  | create {b ts} : Spawn b ts (.writer false ∅ 0)
  | requeue {b ts l} : (∀ u ∈ ts, Disjoint l u.locks) → Spawn b ts (.writer true l 0)
  | remove {b ts f l} : (∀ u ∈ ts, Disjoint l u.locks) → Spawn b ts (.remover f l .started)

def Step (o : BookOptions Id) : Pool (Book Id) (Worker Id) → Pool (Book Id) (Worker Id) → Prop :=
  Pool.Step (Act o) Spawn

/-- One key of the recovery scan: the count, whether the index is still on, and the index. -/
def recoverKey (limit : ℕ) : ℕ × Bool × List Id → Id → ℕ × Bool × List Id
  | (n, indexed, index), id =>
    if indexed then
      if n + 1 > limit then (n + 1, false, []) else (n + 1, true, index ++ [id])
    else (n + 1, false, index)

def recoverScan (limit : ℕ) (indexed : Bool) (keys : List Id) : ℕ × Bool × List Id :=
  keys.foldl (recoverKey limit) (0, indexed, [])

/-- The book the constructor leaves: the events `keys`, all of them ready in the index if it is on. -/
def recover (limit : ℕ) (indexed : Bool) (keys : List Id) (failed : Finset Id) : Book Id where
  pending := (recoverScan limit indexed keys).1
  events := keys.toFinset
  failed := failed
  index id := if id ∈ (recoverScan limit indexed keys).2.2 then
    some ((recoverScan limit indexed keys).2.2.idxOf id) else none
  ready := Finset.range (recoverScan limit indexed keys).2.2.length
  allocated := (recoverScan limit indexed keys).2.2.length
  taken := keys.toFinset ∪ failed

end TinyImx.Local.Pending
