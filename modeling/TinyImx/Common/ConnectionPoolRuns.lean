import Mathlib.Data.Multiset.MapFold
import Mathlib.Data.Multiset.Range
import Mathlib.Data.Multiset.Filter
import Mathlib.Data.Multiset.Bind
import TinyImx.Common.ConnectionPool

/-!
# Every connection of an initialization is in one place

A connection is in the queue, checked by a call of `Acquire`, in a lease, or on its way back.  The
steps move it from one place to the other; only `Shutdown` and a `Release` while the pool shuts down
drop one.  A `Release` does not know which `Initialize` a connection belongs to: one that gives a
connection of an earlier `Initialize` to a pool that is not shutting down puts it among the others.
-/

namespace TinyImx.Common.ConnectionPool

open Multiset (add_cons card card_map coe_add coe_nil cons_add cons_bind filter_add filter_eq_self
  le_cons_self map_cons map_le_map map_map mem_add mem_coe mem_cons mem_cons_of_mem mem_cons_self
  mem_filter mem_map mem_of_le range singleton_add)

variable {transactions : Bool} {s s' : State} {l : Label} {ls : List Label}

/-! ## Places -/

def State.held (s : State) : Multiset Connection :=
  s.leases.bind fun lease => lease.connection.elim 0 ({·})

/-- The connections of leases, of calls of `Acquire` in progress, and of leases that are being reset. -/
def State.outside (s : State) : Multiset Connection :=
  s.probing + s.held + s.returning + s.settled

def State.all (s : State) : Multiset Connection := s.connections + s.outside

def Connection.key (c : Connection) : ℕ × ℕ := (c.id, c.generation)

def State.keys (s : State) : Multiset (ℕ × ℕ) := s.all.map Connection.key

@[simp] theorem Connection.key_close (c : Connection) : c.close.key = c.key := rfl

@[simp] theorem Connection.key_reconnect (c : Connection) : c.reconnect.key = c.key := rfl

@[simp] theorem Connection.key_settle (c : Connection) (transactions rollback : Bool) :
    (c.settle transactions rollback).key = c.key := by
  unfold settle
  split
  · split <;> rfl
  · rfl

theorem Connection.settle_inTransaction {c : Connection} {rollback : Bool}
    (h : transactions = false → c.inTransaction = false) :
    (c.settle transactions rollback).inTransaction = false := by
  cases transactions with
  | false => simpa [settle] using h rfl
  | true =>
    cases htx : c.inTransaction <;> cases rollback <;> simp [settle, htx, close]

/-! ## The invariant -/

structure Inv (transactions : Bool) (s : State) : Prop where
  shuttingDown : s.initialized = true → s.shuttingDown = false
  pooled : ∀ c ∈ s.connections, s.initialized = true ∧ c.generation = s.generation
  conserved : s.initialized = true → s.keys.filter (·.2 = s.generation) =
    (Multiset.range s.size).map fun i => (s.first + i, s.generation)
  size : s.initialized = true → (s.size : ℤ) = s.config.poolSize
  nodup : (s.keys.map Prod.fst).Nodup
  bound : ∀ k ∈ s.keys, k.1 < s.nextId ∧ k.2 ≤ s.generation
  pool : ∀ lease ∈ s.leases, lease.connection ≠ none → lease.pool = true
  clean : ∀ c ∈ (s.connections : Multiset Connection) + s.probing + s.settled,
    c.inTransaction = false
  plain : transactions = false → ∀ c ∈ s.held + s.returning, c.inTransaction = false

/-- The connection is not one of the current initialization, and the pool takes it all the same. -/
def State.Stale (s : State) (c : Connection) : Prop :=
  s.shuttingDown = false ∧ ¬ (s.initialized = true ∧ c.generation = s.generation)

def Within (transactions : Bool) (s : State) (l : Label) (s' : State) : Prop :=
  Step transactions s l s' ∧ ∀ c, l = .release c → ¬ s.Stale c

namespace Inv

theorem init : Inv transactions .initial where
  shuttingDown h := by cases h
  pooled _ h := by cases h
  conserved h := by cases h
  size h := by cases h
  nodup := by simp [State.keys, State.all, State.outside, State.held, State.initial]
  bound k h := by simp [State.keys, State.all, State.outside, State.held, State.initial] at h
  pool _ h := by simp [State.initial] at h
  clean c h := by simp [State.initial] at h
  plain _ c h := by simp [State.held, State.initial] at h

theorem move {waiting : ℕ} {connections : List Connection} {probing returning settled : Multiset Connection}
    {leases : Multiset Lease} (h : Inv transactions s)
    (hs' : s' = { s with
      waiting := waiting, connections := connections, probing := probing, leases := leases
      returning := returning, settled := settled })
    (hkeys : s'.keys = s.keys)
    (hpooled : ∀ c ∈ connections, c ∈ s.connections ∨ s.initialized = true ∧ c.generation = s.generation)
    (hpool : ∀ lease ∈ leases, lease.connection ≠ none → lease.pool = true)
    (hclean : ∀ c ∈ (connections : Multiset Connection) + probing + settled, c.inTransaction = false)
    (hplain : transactions = false → ∀ c ∈ s'.held + returning, c.inTransaction = false) :
    Inv transactions s' := by
  subst hs'
  refine ⟨h.shuttingDown, fun c hc => ?_, ?_, h.size, ?_, ?_, hpool, hclean, hplain⟩
  · exact (hpooled c hc).elim (h.pooled c) id
  · rw [hkeys]
    exact h.conserved
  · rw [hkeys]
    exact h.nodup
  · rw [hkeys]
    exact h.bound

theorem mem_clean {c : Connection} (h : Inv transactions s) (hc : c ∈ s.connections ∨ c ∈ s.probing ∨ c ∈ s.settled) :
    c.inTransaction = false := by
  refine h.clean c ?_
  simp only [mem_add, mem_coe]
  tauto

theorem pool_rest {lease : Lease} {rest : Multiset Lease} (h : Inv transactions s)
    (hl : s.leases = lease ::ₘ rest) : (lease.connection ≠ none → lease.pool = true) ∧
      ∀ other ∈ rest, other.connection ≠ none → other.pool = true :=
  ⟨h.pool lease (by rw [hl]; exact mem_cons_self _ _),
    fun other ho => h.pool other (by simp_all)⟩

theorem leases {leases : Multiset Lease} {returning : Multiset Connection} (h : Inv transactions s)
    (hkeys : ({ s with leases := leases, returning := returning }.held + returning).map Connection.key =
      (s.held + s.returning).map Connection.key)
    (hpool : ∀ lease ∈ leases, lease.connection ≠ none → lease.pool = true)
    (hplain : transactions = false → ∀ c ∈ { s with leases := leases, returning := returning }.held +
      returning, c.inTransaction = false) :
    Inv transactions { s with leases := leases, returning := returning } := by
  refine h.move rfl ?_ (fun _ => .inl) hpool h.clean hplain
  have hall : ∀ t : State, t.keys = ((t.connections : Multiset Connection) + t.probing + t.settled).map
      Connection.key + (t.held + t.returning).map Connection.key := fun t => by
    rw [← Multiset.map_add, State.keys, State.all, State.outside]
    congr 1
    ac_rfl
  rw [hall, hall s]
  exact congrArg _ hkeys

theorem connections_of_closed (h : Inv transactions s) (hclosed : s.initialized = false) :
    s.connections = [] := by
  refine List.eq_nil_iff_forall_not_mem.2 fun c hc => ?_
  rw [(h.pooled c hc).1] at hclosed
  cases hclosed

theorem closed (h : Inv transactions s) (hclosed : s'.initialized = false)
    (hconnections : s'.connections = []) (hkeys : s'.keys ≤ s.keys) (hnext : s.nextId ≤ s'.nextId)
    (hgeneration : s.generation ≤ s'.generation) (hprobing : s'.probing = s.probing)
    (hleases : s'.leases = s.leases) (hreturning : s'.returning = s.returning)
    (hsettled : s'.settled ≤ s.settled) : Inv transactions s' := by
  have hopen : s'.initialized ≠ true := by
    rw [hclosed]
    nofun
  refine ⟨fun hi => absurd hi hopen, ?_, fun hi => absurd hi hopen, fun hi => absurd hi hopen, ?_,
    fun k hk => ?_, ?_, fun c hc => h.clean c ?_, fun hno c hc => h.plain hno c ?_⟩
  · rw [hconnections]
    nofun
  · exact Multiset.nodup_of_le (map_le_map hkeys) h.nodup
  · have hb := h.bound k (mem_of_le hkeys hk)
    omega
  · rw [hleases]
    exact h.pool
  · rw [hconnections, hprobing] at hc
    simp only [mem_add, coe_nil, Multiset.notMem_zero, false_or] at hc ⊢
    exact hc.imp .inr (mem_of_le hsettled)
  · rw [State.held, hleases, hreturning] at hc
    exact hc

theorem shutdown (h : Inv transactions s) : Inv transactions s.shutdown := by
  rw [State.shutdown]
  split
  · exact h
  · refine h.closed rfl rfl ?_ le_rfl le_rfl rfl rfl rfl le_rfl
    refine map_le_map ?_
    show ↑([] : List Connection) + s.outside ≤ s.connections + s.outside
    rw [coe_nil, zero_add]
    exact Multiset.le_add_left _ _

theorem fresh_keys (s : State) (n : ℕ) : ((s.fresh n : List Connection) : Multiset Connection).map
    Connection.key = (range n).map fun i => (s.nextId + i, s.generation + 1) := by
  simp [State.fresh, range, Connection.key, Function.comp_def]

/-- The pool is initialized with new connections. -/
theorem opened {config : Config} (h : Inv transactions s) (hnone : s.connections = [])
    (hsize : 0 < config.poolSize) : Inv transactions { s with
      config := config, shuttingDown := false
      connections := s.connections ++ s.fresh config.poolSize.toNat
      size := (s.connections ++ s.fresh config.poolSize.toNat).length, initialized := true
      generation := s.generation + 1, first := s.nextId
      nextId := s.nextId + config.poolSize.toNat } := by
  have hold : s.keys = s.outside.map Connection.key := by
    rw [State.keys, State.all, hnone, coe_nil, zero_add]
  rw [hnone, List.nil_append]
  have hlength : (s.fresh config.poolSize.toNat).length = config.poolSize.toNat := by
    simp [State.fresh]
  rw [hlength]
  generalize hs' : ({ s with
    config := config, shuttingDown := false, connections := s.fresh config.poolSize.toNat
    size := config.poolSize.toNat, initialized := true, generation := s.generation + 1
    first := s.nextId, nextId := s.nextId + config.poolSize.toNat } : State) = s'
  have hkeys : s'.keys = (range config.poolSize.toNat).map
      (fun i => (s.nextId + i, s.generation + 1)) + s.keys := by
    subst hs'
    rw [hold, ← fresh_keys, ← Multiset.map_add]
    rfl
  have hfresh : ∀ k ∈ (range config.poolSize.toNat).map
      (fun i => (s.nextId + i, s.generation + 1)),
      s.nextId ≤ k.1 ∧ k.1 < s.nextId + config.poolSize.toNat ∧ k.2 = s.generation + 1 :=
    fun k hk => by
      obtain ⟨i, hi, rfl⟩ := mem_map.1 hk
      simp_all
  refine ⟨?_, ?_, fun _ => ?_, ?_, ?_, fun k hk => ?_, ?_, ?_, ?_⟩
  · subst hs'
    exact fun _ => rfl
  · subst hs'
    intro c hc
    obtain ⟨i, -, rfl⟩ := List.mem_map.1 hc
    exact ⟨rfl, rfl⟩
  · rw [hkeys, filter_add]
    subst hs'
    rw [filter_eq_self.2 fun k hk => (hfresh k hk).2.2, Multiset.filter_eq_nil.2, add_zero]
    intro k hk heq
    have := (h.bound k hk).2
    simp only at heq
    omega
  · grind
  · rw [hkeys, Multiset.map_add, Multiset.nodup_add]
    refine ⟨?_, h.nodup, ?_⟩
    · rw [map_map]
      refine Multiset.Nodup.map (fun i j hij => ?_) (Multiset.nodup_range _)
      exact Nat.add_left_cancel hij
    · rw [Multiset.disjoint_left]
      intro i hi hi'
      obtain ⟨k, hk, rfl⟩ := mem_map.1 hi
      obtain ⟨k', hk', heq⟩ := mem_map.1 hi'
      have := (hfresh k hk).1
      have := (h.bound k' hk').1
      omega
  · rw [hkeys, mem_add] at hk
    subst hs'
    rcases hk with hk | hk
    · have := hfresh k hk
      simp only
      omega
    · have := h.bound k hk
      simp only
      omega
  · subst hs'
    exact h.pool
  · subst hs'
    intro c hc
    simp only [mem_add, mem_coe] at hc
    rcases hc with (hc | hc) | hc
    · obtain ⟨i, -, rfl⟩ := List.mem_map.1 hc
      rfl
    · exact h.mem_clean (.inr (.inl hc))
    · exact h.mem_clean (.inr (.inr hc))
  · subst hs'
    exact h.plain

theorem initializePool {config : Config} {connects : ℕ} (h : Inv transactions s) :
    Inv transactions (s.initializePool config connects).1 := by
  rw [State.initializePool]
  split
  · exact h
  · rename_i hclosed
    split
    · exact h
    · split
      · exact h
      · rename_i hsize
        have hnone := h.connections_of_closed (Bool.eq_false_of_not_eq_true hclosed)
        split
        · refine h.closed rfl rfl ?_ (by simp only; omega) (Nat.le_succ _) rfl rfl rfl le_rfl
          refine map_le_map ?_
          show ↑([] : List Connection) + s.outside ≤ s.connections + s.outside
          rw [coe_nil, zero_add]
          exact Multiset.le_add_left _ _
        · exact h.opened hnone (by omega)

theorem step (h : Inv transactions s) (hs : Within transactions s l s') : Inv transactions s' := by
  obtain ⟨hs, hstale⟩ := hs
  cases hs with
  | initializePool => exact h.initializePool
  | shutdown => exact h.shutdown
  | arrive => exact h.move rfl rfl (fun _ => .inl) h.pool h.clean h.plain
  | leave => exact h.move rfl rfl (fun _ => .inl) h.pool h.clean h.plain
  | @take n c rest hn _ hc =>
    refine h.move rfl ?_ (fun c' hc' => .inl ?_) h.pool (fun c' hc' => h.clean c' ?_) h.plain
    · simp only [State.keys, State.all, State.outside, State.held, hc, ← Multiset.cons_coe,
        cons_add, add_cons]
    · rw [hc]
      exact List.mem_cons_of_mem _ hc'
    · simpa [hc, or_assoc, or_left_comm] using hc'
  | @probed c c' rest hr hc' =>
    have hkey : c'.key = c.key := by rcases hc' with ⟨-, rfl⟩ | rfl <;> rfl
    have hplain : c'.inTransaction = false := by
      rcases hc' with ⟨-, rfl⟩ | rfl
      · exact h.mem_clean (.inr (.inl (by simp [hr])))
      · rfl
    refine h.move rfl ?_ (fun _ => .inl) ?_ (fun x hx => h.clean x ?_) fun htx x hx => ?_
    · simp only [State.keys, State.all, State.outside, State.held, hr, cons_bind,
        Option.elim_some, singleton_add, cons_add, add_cons,
        map_cons, hkey]
    · intro lease hlease hsome
      rcases mem_cons.1 hlease with rfl | hlease
      · rfl
      · exact h.pool lease hlease hsome
    · simp only [hr, mem_add, mem_cons] at hx ⊢
      tauto
    · simp only [State.held, cons_bind, Option.elim_some, singleton_add,
        cons_add, mem_cons] at hx
      rcases hx with rfl | hx
      · exact hplain
      · exact h.plain htx x hx
  | @probeFailed c rest hr =>
    refine h.move rfl ?_ (fun _ => .inl) h.pool (fun x hx => h.clean x ?_) fun htx x hx => ?_
    · simp only [State.keys, State.all, State.outside, State.held, hr, cons_add,
        add_cons, map_cons, Connection.key_close]
    · simp only [hr, mem_add, mem_cons] at hx ⊢
      tauto
    · simp only [add_cons, mem_cons] at hx
      rcases hx with rfl | hx
      · rfl
      · exact h.plain htx x hx
  | declare =>
    refine h.move rfl ?_ (fun _ => .inl) ?_ h.clean fun htx x hx => h.plain htx x ?_
    · simp [State.keys, State.all, State.outside, State.held, Lease.empty]
    · intro lease hlease hsome
      rcases mem_cons.1 hlease with rfl | hlease
      · exact absurd rfl hsome
      · exact h.pool lease hlease hsome
    · simpa [State.held, Lease.empty] using hx
  | @use p connected inTransaction c rest hl htx =>
    obtain ⟨hp, hrest⟩ := h.pool_rest hl
    refine h.leases ?_ (fun lease hlease hsome => ?_) fun hno x hx => ?_
    · simp only [State.held, hl, cons_bind, Option.elim_some, singleton_add,
        cons_add, map_cons]
      rfl
    · rcases mem_cons.1 hlease with rfl | hlease
      · exact hp nofun
      · exact hrest lease hlease hsome
    · simp only [State.held, cons_bind, Option.elim_some, singleton_add,
        cons_add, mem_cons] at hx
      rcases hx with rfl | hx
      · exact Bool.eq_false_of_not_eq_true fun htrue => by
          rw [htx htrue] at hno
          cases hno
      · refine h.plain hno x ?_
        simp only [State.held, hl, cons_bind, Option.elim_some, singleton_add,
          cons_add, mem_cons]
        exact .inr hx
  | @moveConstruct other rest hl =>
    obtain ⟨hp, hrest⟩ := h.pool_rest hl
    refine h.leases ?_ (fun lease hlease hsome => ?_) fun hno x hx => h.plain hno x ?_
    · simp [State.held, hl, Lease.empty]
    · rcases mem_cons.1 hlease with rfl | hlease
      · exact hp hsome
      · rcases mem_cons.1 hlease with rfl | hlease
        · exact absurd rfl hsome
        · exact hrest lease hlease hsome
    · simpa [State.held, hl, Lease.empty] using hx
  | @moveAssign other rest hl =>
    obtain ⟨-, hrest⟩ := h.pool_rest hl
    refine h.leases ?_ (fun lease hlease hsome => ?_) fun hno x hx => h.plain hno x ?_
    · simp [State.held, hl, Lease.empty]
    · rcases mem_cons.1 hlease with rfl | hlease
      · exact hrest other (mem_cons_self _ _) hsome
      · rcases mem_cons.1 hlease with rfl | hlease
        · exact absurd rfl hsome
        · exact hrest lease (mem_cons_of_mem hlease) hsome
    · simpa [State.held, hl, Lease.empty] using hx
  | @resetEmpty p rest hl =>
    obtain ⟨-, hrest⟩ := h.pool_rest hl
    refine h.leases ?_ (fun lease hlease hsome => ?_) fun hno x hx => h.plain hno x ?_
    · simp [State.held, hl, Lease.empty]
    · rcases mem_cons.1 hlease with rfl | hlease
      · exact absurd rfl hsome
      · exact hrest lease hlease hsome
    · simpa [State.held, hl, Lease.empty] using hx
  | @reset c rest hl =>
    obtain ⟨-, hrest⟩ := h.pool_rest hl
    refine h.leases ?_ (fun lease hlease hsome => ?_) fun hno x hx => h.plain hno x ?_
    · simp [State.held, hl, Lease.empty]
    · rcases mem_cons.1 hlease with rfl | hlease
      · exact absurd rfl hsome
      · exact hrest lease hlease hsome
    · simpa [State.held, hl, Lease.empty] using hx
  | resetLoose hl =>
    -- a lease with a connection has its pool
    exact absurd ((h.pool_rest hl).1 nofun) nofun
  | @destroy rest hl =>
    obtain ⟨-, hrest⟩ := h.pool_rest hl
    refine h.leases ?_ hrest fun hno x hx => h.plain hno x ?_
    · simp [State.held, hl, Lease.empty]
    · simpa [State.held, hl, Lease.empty] using hx
  | @settle c rest rollback hr =>
    refine h.move rfl ?_ (fun _ => .inl) h.pool (fun x hx => ?_) fun hno x hx => h.plain hno x ?_
    · simp only [State.keys, State.all, State.outside, State.held, hr, cons_add,
        add_cons, map_cons, Connection.key_settle]
    · simp only [add_cons, mem_cons] at hx
      rcases hx with rfl | hx
      · refine Connection.settle_inTransaction fun hno => h.plain hno c ?_
        simp [hr]
      · exact h.clean x hx
    · rw [mem_add] at hx ⊢
      exact hx.imp id fun hx => hr ▸ mem_cons_of_mem hx
  | @release c rest hr =>
    have hnot := hstale c rfl
    by_cases hdown : s.shuttingDown = true
    · have hclosed : s.initialized = false :=
        Bool.eq_false_of_not_eq_true fun hinit => by
          rw [h.shuttingDown hinit] at hdown
          cases hdown
      rw [State.release, if_pos hdown]
      refine h.closed hclosed (h.connections_of_closed hclosed) ?_ le_rfl le_rfl rfl rfl rfl ?_
      · refine map_le_map (add_le_add_right (add_le_add_right ?_ _) _)
        exact hr ▸ le_cons_self rest c
      · exact hr ▸ le_cons_self rest c
    · rw [State.release, if_neg hdown]
      have hcurrent : s.initialized = true ∧ c.generation = s.generation := by
        by_contra hne
        exact hnot ⟨Bool.eq_false_of_not_eq_true hdown, hne⟩
      refine h.move rfl ?_ (fun x hx => ?_) h.pool (fun x hx => h.clean x ?_) h.plain
      · simp only [State.keys, State.all, State.outside, State.held, hr, ← coe_add,
          Multiset.coe_singleton, add_cons, map_cons]
        rw [← map_cons]
        congr 1
        rw [← singleton_add]
        ac_rfl
      · rcases List.mem_append.1 hx with hx | hx
        · exact .inl hx
        · rw [List.mem_singleton.1 hx]
          exact .inr hcurrent
      · simp only [mem_add, mem_coe, List.mem_append, List.mem_singleton, hr,
          mem_cons] at hx ⊢
        tauto

end Inv

theorem Inv.run (hrun : Run (Within transactions) .initial ls s) : Inv transactions s :=
  hrun.invariant (I := Inv transactions) (fun _ _ _ h hs => h.step hs) .init

/-! ## Accounting -/

/-- The connections of the current initialization that are not in the queue: of live leases and of
calls of `Acquire` in progress. -/
def State.lent (s : State) : Multiset Connection := s.outside.filter (·.generation = s.generation)

/-- While the pool is initialized, `AvailableCount` and the connections that are lent make up
`Size`, which is `pool_size`. -/
def Accounted (s : State) : Prop :=
  s.initialized = true →
    s.connections.length + s.lent.card = s.size ∧ (s.size : ℤ) = s.config.poolSize

namespace Inv

theorem all_filter (h : Inv transactions s) :
    s.all.filter (·.generation = s.generation) = s.connections + s.lent := by
  rw [State.all, filter_add, State.lent]
  refine congrArg (· + _) (filter_eq_self.2 fun c hc => ?_)
  exact (h.pooled c (mem_coe.1 hc)).2

theorem keys_filter (s : State) : s.keys.filter (·.2 = s.generation) =
    (s.all.filter (·.generation = s.generation)).map Connection.key := by
  rw [State.keys, Multiset.filter_map]
  rfl

theorem accounted (h : Inv transactions s) : Accounted s := fun hinit => by
  have hcard := congrArg card (h.conserved hinit)
  rw [keys_filter, h.all_filter, card_map, card_map, Multiset.card_range,
    Multiset.card_add, Multiset.coe_card] at hcard
  exact ⟨hcard, h.size hinit⟩

theorem ids (h : Inv transactions s) (hinit : s.initialized = true) :
    (s.all.filter (·.generation = s.generation)).map Connection.id =
      (range s.size).map (s.first + ·) := by
  have hids := congrArg (Multiset.map Prod.fst) (h.conserved hinit)
  rw [keys_filter, map_map, map_map] at hids
  exact hids

theorem release_iff {c : Connection} (h : Inv transactions s)
    (hs : Step transactions s (.release c) s') (hinit : s.initialized = true) :
    Accounted s' ↔ ¬ s.Stale c := by
  constructor
  · intro hacc hstale
    have hold := (h.accounted hinit).1
    cases hs with
    | @release c rest hr =>
      rw [State.release, if_neg (by rw [hstale.1]; nofun)] at hacc
      have hnew := (hacc hinit).1
      have hgen : c.generation ≠ s.generation := fun heq => hstale.2 ⟨hinit, heq⟩
      have hlent : s.lent = ({ s with connections := s.connections ++ [c], settled := rest } : State).lent := by
        simp only [State.lent, State.outside, State.held, hr, add_cons]
        exact Multiset.filter_cons_of_neg (p := fun x : Connection => x.generation = s.generation) _ hgen
      grind
  · intro hstale
    refine (h.step ⟨hs, fun c' hc' => ?_⟩).accounted
    cases hc'
    exact hstale

end Inv

/-- A connection that a failed `Acquire` took is not lost while its initialization lasts. -/
def GivenBack (ls : List Label) (s : State) : Prop :=
  ∀ c, .acquireFailed c ∈ ls → c.generation ≤ s.generation ∧
    (s.initialized = true → c.generation = s.generation → c.key ∈ s.keys)

theorem same_initialization (hs : Step transactions s l s') (hinit : s'.initialized = true)
    (hgen : s'.generation = s.generation) :
    s.initialized = true ∧ s'.size = s.size ∧ s'.first = s.first := by
  cases hs with
  | @initializePool config connects =>
    rw [State.initializePool] at hinit hgen ⊢
    split
    · simp_all
    · rename_i hclosed
      rw [if_neg hclosed] at hinit hgen
      split at hinit
      · exact absurd hinit hclosed
      · split at hinit
        · exact absurd hinit hclosed
        · rename_i henable hsize
          rw [if_neg henable, if_neg hsize] at hgen
          split at hgen
          · exact absurd hgen (Nat.succ_ne_self _)
          · exact absurd hgen (Nat.succ_ne_self _)
  | shutdown =>
    rw [State.shutdown] at hinit hgen ⊢
    split
    · rename_i hidle
      rw [if_pos hidle] at hinit
      exact ⟨hinit, rfl, rfl⟩
    · rename_i hbusy
      rw [if_neg hbusy] at hinit
      cases hinit
  | release _ =>
    rw [State.release] at hinit ⊢
    split
    · rename_i hdown
      simp_all
    · simp_all
  | _ => exact ⟨hinit, rfl, rfl⟩

theorem generation_le (hs : Step transactions s l s') : s.generation ≤ s'.generation := by
  cases hs with
  | initializePool =>
    rw [State.initializePool]
    split
    · exact le_rfl
    · split
      · exact le_rfl
      · split
        · exact le_rfl
        · split
          · exact Nat.le_succ _
          · exact Nat.le_succ _
  | shutdown =>
    rw [State.shutdown]
    split <;> exact le_rfl
  | release _ =>
    rw [State.release]
    split <;> exact le_rfl
  | _ => exact le_rfl

theorem givenBack_step (h : Inv transactions s) (hg : GivenBack ls s)
    (hs : Within transactions s l s') : GivenBack (ls ++ [l]) s' := by
  have h' := h.step hs
  intro c hmem
  rcases List.mem_append.1 hmem with hmem | hmem
  · obtain ⟨hle, hin⟩ := hg c hmem
    refine ⟨hle.trans (generation_le hs.1), fun hinit heq => ?_⟩
    have hgen : s'.generation = s.generation :=
      le_antisymm (heq ▸ hle) (generation_le hs.1)
    obtain ⟨hinit₀, hsize, hfirst⟩ := same_initialization hs.1 hinit hgen
    have hsame : s'.keys.filter (·.2 = s'.generation) = s.keys.filter (·.2 = s.generation) := by
      rw [h'.conserved hinit, h.conserved hinit₀, hsize, hfirst, hgen]
    have hmem' : c.key ∈ s.keys.filter (·.2 = s.generation) :=
      mem_filter.2 ⟨hin hinit₀ (heq.trans hgen), heq.trans hgen⟩
    rw [← hsame] at hmem'
    exact (mem_filter.1 hmem').1
  · obtain rfl := List.mem_singleton.1 hmem
    have hkey : c.key ∈ s'.keys := by
      cases hs.1 with
      | @probeFailed c rest hr =>
        refine Multiset.mem_map_of_mem _ ?_
        simp [State.all, State.outside]
    exact ⟨(h'.bound _ hkey).2, fun _ _ => hkey⟩

theorem GivenBack.run (hrun : Run (Within transactions) .initial ls s) : GivenBack ls s := by
  have hall := hrun.history (I := fun ls s => Inv transactions s ∧ GivenBack ls s)
    (fun ls s l s' h hs => ⟨h.1.step hs, givenBack_step h.1 h.2 hs⟩)
    ⟨.init, fun _ hmem => by cases hmem⟩
  exact hall.2

/-- In every run in which a connection is put into the queue only while its own initialization lasts,
whatever is acquired, moved, reset, shut down and initialized, and whatever pings, connects and
rollbacks fail: the account holds, with no more connections available than `Size`; the connections of
the current initialization are those it made, each in one place, also after an `Acquire` that failed;
no two places hold one connection; and none in the queue is in a transaction.  The next `Release`
keeps the account exactly if its connection is not stale. -/
theorem pool_accounting (hrun : Run (Within transactions) .initial ls s) :
    Accounted s ∧ (s.initialized = true → s.connections.length ≤ s.size) ∧
    (s.initialized = true → (s.all.filter (·.generation = s.generation)).map Connection.id =
      (Multiset.range s.size).map (s.first + ·)) ∧
    (s.all.map Connection.id).Nodup ∧
    (∀ c ∈ s.connections, c.inTransaction = false) ∧
    (∀ c, .acquireFailed c ∈ ls → s.initialized = true → c.generation = s.generation →
      ∃ c' ∈ s.all, c'.id = c.id) ∧
    ∀ c s', Step transactions s (.release c) s' → s.initialized = true →
      (Accounted s' ↔ ¬ s.Stale c) := by
  have h := Inv.run hrun
  refine ⟨h.accounted, fun hinit => ?_, h.ids, ?_, fun c hc => h.mem_clean (.inl hc),
    fun c hmem hinit hgen => ?_, fun c s' hs hinit => h.release_iff hs hinit⟩
  · have := (h.accounted hinit).1
    omega
  · have hnodup := h.nodup
    rw [State.keys, Multiset.map_map] at hnodup
    exact hnodup
  · obtain ⟨c', hc', heq⟩ := Multiset.mem_map.1 ((GivenBack.run hrun c hmem).2 hinit hgen)
    exact ⟨c', hc', congrArg Prod.fst heq⟩

/-! ## A lease that outlives its initialization -/

def oneConnection (generation id : ℕ) : Connection := ⟨id, generation, true, false⟩

def leased : State :=
  { State.initial with
    config := ⟨true, 1⟩, initialized := true, size := 1, generation := 1, nextId := 1
    leases := {⟨true, some (oneConnection 1 0)⟩} }

theorem leased_run (transactions : Bool) : ∃ ls, Run (Within transactions) .initial ls leased := by
  have hwithin : ∀ {s s' : State} {l : Label}, Step transactions s l s' → (∀ c, l ≠ .release c) →
      Within transactions s l s' := fun hs hl => ⟨hs, fun c hc => absurd hc (hl c)⟩
  have h : Run (Within transactions) .initial [] .initial := .nil _
  have h := h.snoc (hwithin (@Step.initializePool transactions _ ⟨true, 1⟩ 1) nofun)
  have h := h.snoc (hwithin (.arrive rfl rfl) nofun)
  have h := h.snoc (hwithin (.take (n := 0) (c := oneConnection 1 0) rfl rfl
    (show _ = oneConnection 1 0 :: [] from rfl)) nofun)
  have h := h.snoc (hwithin (.probed (c := oneConnection 1 0)
    (show _ = oneConnection 1 0 ::ₘ 0 from rfl) (.inl ⟨rfl, rfl⟩)) nofun)
  exact ⟨_, h⟩

theorem pool_accounting_leased : ∃ ls, Run (Within true) .initial ls leased ∧ Accounted leased := by
  obtain ⟨ls, hrun⟩ := leased_run true
  exact ⟨ls, hrun, (pool_accounting hrun).1⟩

theorem stale_run (transactions : Bool) : ∃ ls s, Run (Step transactions) .initial ls s ∧
    s.initialized = true ∧ s.connections.length = 2 ∧ s.size = 1 := by
  obtain ⟨ls, hleased⟩ := leased_run transactions
  have h : Run (Step transactions) .initial ls leased := hleased.imp fun _ _ _ hs => hs.1
  have h := h.snoc .shutdown
  have h := h.snoc (@Step.initializePool transactions _ ⟨true, 1⟩ 1)
  have h := h.snoc (.reset (c := oneConnection 1 0)
    (show _ = Lease.mk true (some (oneConnection 1 0)) ::ₘ 0 from rfl))
  have h := h.snoc (@Step.settle transactions _ (oneConnection 1 0) 0 true rfl)
  have h := h.snoc (.release (c := oneConnection 1 0)
    (show _ = oneConnection 1 0 ::ₘ 0 from by
      show (oneConnection 1 0).settle transactions true ::ₘ 0 = _
      rw [Connection.settle, if_neg (by rw [Bool.and_eq_true]; exact fun htx => by cases htx.2)]))
  exact ⟨_, _, h, rfl, rfl, rfl⟩

/-- Both pools come to have more connections available than their size. -/
theorem available_exceeds_size :
    (∃ ls s, Run (Step true) .initial ls s ∧ s.initialized = true ∧ s.connections.length = 2 ∧
      s.size = 1) ∧
    ∃ ls s, Run (Step false) .initial ls s ∧ s.initialized = true ∧ s.connections.length = 2 ∧
      s.size = 1 := ⟨stale_run true, stale_run false⟩

end TinyImx.Common.ConnectionPool
