import TinyImx.Net.TcpServer

/-!
# What holds in every run of a server

For every connection the place says which functors about it are queued, in which order; a step about
one connection leaves what is said about the others.  The accounts of the server hold in every run,
and the life of a connection is what it should be in runs in which `Stop` meets no connection on its
way out.
-/

namespace TinyImx.Net.TcpServer

open TinyImx.Local (Bytes decimal decimal_eq decimal_injective digit_range append_cons_inj)
open Function (update_idem update_of_ne update_self)

variable {s s' : State} {a : Act} {c d : ℕ} {r : Conn} {l l' : Loop}

/-! ## The functors of a connection -/

def State.mine (s : State) (l : Loop) (c : ℕ) : List Kind :=
  ((s.queue l).filter fun f => f.conn = c && f.kind ≠ .forceClose).map Functor.kind

def Conn.pending (r : Conn) (l : Loop) : List Kind :=
  (if l = r.loop then (if r.established then [] else [.established]) ++
    (match r.place with
    | .removed => [.destroyed]
    | .cleaning => [.cleanup]
    | _ => []) else []) ++
  (if l = .base ∧ r.place = .removing then [.remove] else [])

def Stop.todo : Stop → List ℕ
  | .queueing todo => todo
  | _ => []

theorem mine_push (s : State) (l l' : Loop) (f : Functor) (c : ℕ) :
    (s.push l f).mine l' c = s.mine l' c ++
      if l' = l ∧ f.conn = c ∧ f.kind ≠ .forceClose then [f.kind] else [] := by
  by_cases hl : l' = l
  · subst hl
    by_cases hf : f.conn = c ∧ f.kind ≠ .forceClose
    · simp [State.mine, State.push, hf]
    · simp [State.mine, State.push, List.filter_append, hf]
  · simp [State.mine, State.push, hl]

variable {f : Functor} {functors : List Functor}

theorem mine_pop (h : s.queue l = f :: functors) (l' : Loop) (c : ℕ) :
    s.mine l' c = (if l' = l ∧ f.conn = c ∧ f.kind ≠ .forceClose then [f.kind] else []) ++
      { s with queue := Function.update s.queue l functors }.mine l' c := by
  by_cases hl : l' = l
  · subst hl
    by_cases hf : f.conn = c ∧ f.kind ≠ .forceClose
    · simp [State.mine, h, hf]
    · simp [State.mine, h, hf]
  · simp [State.mine, hl]

/-! ## What is said about one connection -/

structure Same (s s' : State) (c : ℕ) : Prop where
  mine : ∀ l, s'.mine l c = s.mine l c
  connections : c ∈ s'.connections ↔ c ∈ s.connections
  handing : ∀ l, s'.handing l = some c ↔ s.handing l = some c
  todo : c ∈ s'.stop.todo ↔ c ∈ s.stop.todo
  owed : c ∈ s'.owed ↔ c ∈ s.owed
  started : s'.started = s.started

structure ConnInv (s : State) (c : ℕ) (r : Conn) : Prop where
  queue : ∀ l, s.mine l c = r.pending l
  mapped : c ∈ s.connections ↔ r.place = .mapped ∨ r.place = .handing ∨ r.place = .removing
  handing : ∀ l, s.handing l = some c ↔ l = r.loop ∧ r.place = .handing
  todo : c ∈ s.stop.todo ↔ r.place = .stopping
  owed : c ∈ s.owed ↔ r.place = .stopping ∨ r.place = .cleaning
  base : r.loop = .base → r.established = true ∧
    (r.place = .mapped ∨ r.place = .removed ∨ r.place = .gone)
  fresh : r.established = false → r.state = .connecting ∧ r.reading = false ∧ r.log = [] ∧
    (r.place = .mapped ∨ r.place = .stopping ∨ r.place = .cleaning)
  live : r.state ≠ .disconnected → r.place = .mapped ∨ r.place = .stopping ∨ r.place = .cleaning
  reading : r.reading = true → r.state = .connected
  log : r.established = true → ∃ n, r.log = .connected :: List.replicate n .message ++
    if r.place = .gone then [.disconnected] else []
  asked : r.place = .stopping ∨ r.place = .cleaning → s.started = false
  stopped : s.started = false → r.place = .stopping ∨ r.place = .cleaning ∨ r.place = .gone

theorem ConnInv.congr (h : ConnInv s c r) (hsame : Same s s' c) : ConnInv s' c r where
  queue l := (hsame.mine l).trans (h.queue l)
  mapped := hsame.connections.trans h.mapped
  handing l := (hsame.handing l).trans (h.handing l)
  todo := hsame.todo.trans h.todo
  owed := hsame.owed.trans h.owed
  base := h.base
  fresh := h.fresh
  live := h.live
  reading := h.reading
  log := h.log
  asked := by
    rw [hsame.started]
    exact h.asked
  stopped := by
    rw [hsame.started]
    exact h.stopped

structure Unknown (s : State) (c : ℕ) : Prop where
  mine : ∀ l, s.mine l c = []
  connections : c ∉ s.connections
  handing : ∀ l, s.handing l ≠ some c
  todo : c ∉ s.stop.todo
  owed : c ∉ s.owed

theorem Unknown.congr (h : Unknown s c) (hsame : Same s s' c) : Unknown s' c where
  mine l := (hsame.mine l).trans (h.mine l)
  connections hc := h.connections (hsame.connections.1 hc)
  handing l hc := h.handing l ((hsame.handing l).1 hc)
  todo hc := h.todo (hsame.todo.1 hc)
  owed hc := h.owed (hsame.owed.1 hc)

/-! ## The invariant -/

structure Lists (s : State) : Prop where
  connections : s.connections.Nodup
  todo : s.stop.todo.Nodup
  owed : s.owed.Nodup
  pending : s.pendingCleanup = s.owed.length
  started : s.started = true ↔ s.stop = .notCalled
  returned : s.stop = .returned → s.owed = []

structure Inv (s : State) : Prop where
  conn : ∀ c r, s.conns c = some r → ConnInv s c r
  unknown : ∀ c, s.conns c = none → Unknown s c
  known : ∀ c, s.conns c = none ↔ s.nextConnectionId ≤ c
  events : ∀ l, ∀ e ∈ s.reported l, ∃ r, s.conns e.conn = some r ∧ r.loop = l ∧
    r.established = true ∧ r.place ≠ .gone
  lists : Lists s

theorem inv_init : Inv State.init where
  conn _ _ h := by cases h
  unknown c _ := by constructor <;> simp [State.init, State.mine, Stop.todo]
  known c := by simp [State.init]
  events l e h := by cases h
  lists := by constructor <;> simp [State.init, Stop.todo]

theorem Inv.change (hi : Inv s) {r' : Conn} (hc : s.conns c = some r)
    (hconns : s'.conns = Function.update s.conns c (some r')) (hsame : ∀ d, d ≠ c → Same s s' d)
    (hconn : ConnInv s' c r') (hnext : s'.nextConnectionId = s.nextConnectionId)
    (hevents : ∀ l, ∀ e ∈ s'.reported l, e ∈ s.reported l) (hloop : r'.loop = r.loop)
    (hestablished : r.established = true → r'.established = true)
    (hgone : r'.place = .gone → r.place = .gone ∨ s'.reported r.loop = []) (hlists : Lists s') :
    Inv s' := by
  have hother : ∀ d, d ≠ c → s'.conns d = s.conns d := fun d hd => by
    rw [hconns, update_of_ne hd]
  have hself : s'.conns c = some r' := by rw [hconns, update_self]
  refine ⟨fun d q hd => ?_, fun d hd => ?_, fun d => ?_, fun l e he => ?_, hlists⟩
  · by_cases hdc : d = c
    · subst hdc
      rw [hself] at hd
      cases hd
      exact hconn
    · exact (hi.conn d q ((hother d hdc).symm.trans hd)).congr (hsame d hdc)
  · have hdc : d ≠ c := by
      rintro rfl
      rw [hself] at hd
      cases hd
    exact (hi.unknown d ((hother d hdc).symm.trans hd)).congr (hsame d hdc)
  · by_cases hdc : d = c
    · subst hdc
      have := hi.known d
      simp_all
    · rw [hother d hdc, hnext]
      exact hi.known d
  · obtain ⟨q, hq, hql, hqe, hqg⟩ := hi.events l e (hevents l e he)
    by_cases hec : e.conn = c
    · rw [hec, hc] at hq
      cases hq
      refine ⟨r', hec ▸ hself, hloop.trans hql, hestablished hqe, fun hg => ?_⟩
      rcases hgone hg with hg | hnone
      · exact hqg hg
      · rw [hql] at hnone
        rw [hnone] at he
        cases he
    · exact ⟨q, (hother _ hec).trans hq, hql, hqe, hqg⟩

theorem Same.of_eq (hqueue : s'.queue = s.queue) (hconnections : s'.connections = s.connections)
    (hhanding : s'.handing = s.handing) (hstop : s'.stop = s.stop) (howed : s'.owed = s.owed)
    (hstarted : s'.started = s.started) : Same s s' c := by
  constructor <;> simp [State.mine, hqueue, hconnections, hhanding, hstop, howed, hstarted]

theorem Lists.of_eq (h : Lists s) (hconnections : s'.connections = s.connections)
    (hstop : s'.stop = s.stop) (howed : s'.owed = s.owed)
    (hpending : s'.pendingCleanup = s.pendingCleanup) (hstarted : s'.started = s.started) :
    Lists s' := by
  obtain ⟨h1, h2, h3, h4, h5, h6⟩ := h
  constructor <;> simpa only [hconnections, hstop, howed, hpending, hstarted]

theorem Same.trans {s'' : State} (h : Same s s' c) (h' : Same s' s'' c) : Same s s'' c where
  mine l := (h'.mine l).trans (h.mine l)
  connections := h'.connections.trans h.connections
  handing l := (h'.handing l).trans (h.handing l)
  todo := h'.todo.trans h.todo
  owed := h'.owed.trans h.owed
  started := h'.started.trans h.started

theorem same_push (h : f.conn ≠ d ∨ f.kind = .forceClose) : Same s (s.push l f) d where
  mine l' := by
    rw [mine_push, if_neg, List.append_nil]
    grind
  connections := Iff.rfl
  handing _ := Iff.rfl
  todo := Iff.rfl
  owed := Iff.rfl
  started := rfl

theorem same_pop (h : s.queue l = f :: functors) (hf : f.conn ≠ d ∨ f.kind = .forceClose) :
    Same s { s with queue := Function.update s.queue l functors } d where
  mine l' := by
    rw [mine_pop h l' d, if_neg, List.nil_append]
    grind
  connections := Iff.rfl
  handing _ := Iff.rfl
  todo := Iff.rfl
  owed := Iff.rfl
  started := rfl

theorem conns_update {f : Conn → Conn} (h : s.conns c = some r) :
    (s.update c f).conns = Function.update s.conns c (some (f r)) := by
  rw [State.update, h, Option.map_some]

/-! ## Steps -/

theorem ConnInv.touch (h : ConnInv s c r) (hsame : Same s s' c) {state : ConnState} {reading : Bool}
    {log : List Callback} (hestablished : r.established = true)
    (hlive : state ≠ .disconnected → r.place = .mapped ∨ r.place = .stopping ∨ r.place = .cleaning)
    (hreading : reading = true → state = .connected)
    (hlog : ∃ n, log = .connected :: List.replicate n Callback.message ++
      if r.place = .gone then [.disconnected] else []) :
    ConnInv s' c { r with state, reading, log } := by
  have h := h.congr hsame
  exact ⟨h.queue, h.mapped, h.handing, h.todo, h.owed, h.base,
    fun hno => by simp [hestablished] at hno, hlive, hreading, fun _ => hlog, h.asked, h.stopped⟩

theorem Inv.message (hi : Inv s) {e : Event} {events : List Event} (h : s.reported l = e :: events) :
    Inv ({ s with reported := Function.update s.reported l events }.update e.conn fun r =>
      { r with log := r.log ++ [Callback.message] }) := by
  obtain ⟨r, hc, hloop, hestablished, hgone⟩ := hi.events l e (h ▸ List.mem_cons_self)
  have hconn := hi.conn _ _ hc
  obtain ⟨n, hlog⟩ := hconn.log hestablished
  rw [if_neg hgone, List.append_nil] at hlog
  refine hi.change hc (conns_update hc) (fun d _ => .of_eq rfl rfl rfl rfl rfl rfl) ?_ rfl ?_ rfl id ?_
    (hi.lists.of_eq rfl rfl rfl rfl rfl)
  · refine hconn.touch ?_ hestablished hconn.live hconn.reading ⟨n + 1, ?_⟩
    · exact .of_eq rfl rfl rfl rfl rfl rfl
    rw [hlog, if_neg hgone, List.append_nil, List.replicate_succ', List.cons_append]
  · intro l' e' he'
    by_cases hl : l' = l
    · subst hl
      rw [h]
      simp only [State.update, update_self] at he'
      exact List.mem_cons_of_mem e he'
    · simpa [State.update, hl] using he'
  · exact fun hg => absurd hg hgone

theorem Inv.poll (hi : Inv s) {events : List Event} (h : s.enabled (.poll l events) = true) :
    Inv { s with reported := Function.update s.reported l events } := by
  simp only [State.enabled, Bool.and_eq_true, decide_eq_true_eq, List.all_eq_true] at h
  refine ⟨fun c r hc => (hi.conn c r hc).congr (.of_eq rfl rfl rfl rfl rfl rfl),
    fun c hc => (hi.unknown c hc).congr (.of_eq rfl rfl rfl rfl rfl rfl), hi.known, fun l' e he => ?_,
    hi.lists.of_eq rfl rfl rfl rfl rfl⟩
  by_cases hl : l' = l
  · subst hl
    have he : e ∈ events := by simpa using he
    have hreports := h.2 e he
    simp only [State.reports, Option.any_eq_true, Bool.and_eq_true, decide_eq_true_eq] at hreports
    obtain ⟨r, hc, hloop, hreading⟩ := hreports
    have hconn := hi.conn _ _ hc
    have hlive := hconn.live (by simp [hconn.reading hreading])
    refine ⟨r, hc, hloop, ?_, fun hg => by simp [hg] at hlive⟩
    by_contra hno
    have hfresh := (hconn.fresh (by simpa using hno)).2.1
    grind
  · exact hi.events l' e (by simpa [hl] using he)

/-- A connection with an established callback that is in the map leaves it. -/
theorem Inv.remove (hi : Inv s) (hc : s.conns c = some r) {r' : Conn}
    (hconns : s'.conns = Function.update s.conns c (some r'))
    (hmine : ∀ d l, s'.mine l d = if d = c then r'.pending l else s.mine l d)
    (hplace : r'.place = .removed) (hloop : r'.loop = r.loop)
    (hestablished : r.established = true) (hestablished' : r'.established = true)
    (hstate : r'.state = .disconnected) (hreading : r'.reading = false) (hlog : r'.log = r.log)
    (hmap : c ∈ s.connections) (hconnections : s'.connections = s.connections.erase c)
    (hhanding : s'.handing = s.handing) (hstop : s'.stop = s.stop) (howed : s'.owed = s.owed)
    (hpending : s'.pendingCleanup = s.pendingCleanup) (hstarted : s'.started = s.started)
    (hreported : s'.reported = s.reported) (hnext : s'.nextConnectionId = s.nextConnectionId)
    (hnot : r.place ≠ .handing) : Inv s' := by
  have hconn := hi.conn c r hc
  have hnodup := hi.lists.connections
  have hplace' := hconn.mapped.1 hmap
  have hgone : r.place ≠ .gone := by
    intro hg
    simp [hg] at hplace'
  have hasked : s.started = true := by
    by_contra hno
    have := hconn.stopped (by simpa using hno)
    grind
  refine hi.change hc hconns (fun d hd => ?_) ?_ hnext (fun l e he => hreported ▸ he) hloop
    (fun _ => hestablished') (fun hg => by simp [hplace] at hg) ?_
  · refine ⟨fun l => by rw [hmine, if_neg hd], ?_, by simp [hhanding], by simp [hstop],
      by simp [howed], hstarted⟩
    grind
  · refine ⟨fun l => by rw [hmine, if_pos rfl], ?_, ?_, ?_, ?_, ?_, ?_, ?_, ?_, ?_, ?_, ?_⟩
    · rw [hconnections, hnodup.mem_erase_iff]
      simp [hplace]
    · intro l
      rw [hhanding, hconn.handing]
      simp [hplace, hnot]
    · rw [hstop, hconn.todo]
      grind
    · rw [howed, hconn.owed]
      grind
    · exact fun _ => ⟨hestablished', by simp [hplace]⟩
    · simp [hestablished']
    · simp [hstate]
    · simp [hreading]
    · intro _
      obtain ⟨n, hn⟩ := hconn.log hestablished
      exact ⟨n, by rw [hlog, hn]; simp [hgone, hplace]⟩
    · simp [hplace]
    · simp [hstarted, hasked]
  · obtain ⟨h1, h2, h3, h4, h5, h6⟩ := hi.lists
    exact ⟨hconnections ▸ h1.erase c, hstop ▸ h2, howed ▸ h3, by rw [hpending, howed, h4],
      by rw [hstarted, hstop, h5], by rw [hstop, howed]; exact h6⟩

theorem removeConnectionInLoop_eq (hc : s.conns c = some r) (hmap : c ∈ s.connections) :
    s.removeConnectionInLoop c = ({ s with
      connections := s.connections.erase c
      connectionCount := (s.connections.erase c).length
      closedTotal := s.closedTotal + 1
      conns := Function.update s.conns c (some { r with place := .removed }) }).push r.loop
        ⟨.destroyed, c⟩ := by
  simp only [State.removeConnectionInLoop, hc, if_pos hmap, State.update, Option.map_some]

@[simp] theorem started_update (s : State) (c : ℕ) (f : Conn → Conn) :
    (s.update c f).started = s.started := rfl

@[simp] theorem mine_update (s : State) (c d : ℕ) (f : Conn → Conn) :
    (s.update c f).mine l d = s.mine l d := rfl

theorem handleClose_eq (hc : s.conns c = some r) (hstate : r.state ≠ .disconnected) :
    s.handleClose c = if s.started then
      if r.loop = .base then (s.update c Conn.close).removeConnectionInLoop c
      else { (s.update c Conn.close).update c (fun r => { r with place := .handing }) with
        handing := Function.update s.handing r.loop (some c) }
    else s.update c Conn.close := by
  simp only [State.handleClose, hc, if_neg hstate, started_update]
  rfl

theorem Inv.closeOnBase (hi : Inv s) (hc : s.conns c = some r) (hestablished : r.established = true)
    (hplace : r.place = .mapped) : Inv ((s.update c Conn.close).removeConnectionInLoop c) := by
  have hconn := hi.conn c r hc
  have hmap : c ∈ s.connections := hconn.mapped.2 (.inl hplace)
  have hself : (s.update c Conn.close).conns c = some r.close := by
    rw [conns_update hc, update_self]
  have hconns : Function.update (s.update c Conn.close).conns c
      (some { r.close with place := .removed }) =
      Function.update s.conns c (some { r.close with place := .removed }) := by
    rw [conns_update hc, update_idem]
  rw [removeConnectionInLoop_eq hself hmap]
  refine hi.remove hc hconns (fun d l => ?_) rfl rfl hestablished hestablished rfl rfl rfl hmap rfl
    rfl rfl rfl rfl rfl rfl rfl (by simp [hplace])
  rw [mine_push]
  by_cases hd : d = c
  · subst hd
    have hmine := hconn.queue l
    change s.mine l d ++ _ = _
    rw [if_pos rfl, hmine]
    by_cases hl : l = r.loop
    · subst hl
      simp [Conn.pending, Conn.close, hestablished, hplace]
    · simp [Conn.pending, Conn.close, hestablished, hplace, hl]
  · rw [if_neg hd, if_neg (by simp [Ne.symm hd]), List.append_nil]
    rfl

/-- A connection of an I/O thread closes, and the thread is about to send it to the base loop. -/
theorem Inv.closeOnThread (hi : Inv s) (hc : s.conns c = some r) (hestablished : r.established = true)
    (hplace : r.place = .mapped) (hbase : r.loop ≠ .base) (hfree : s.handing r.loop = none) :
    Inv { (s.update c Conn.close).update c (fun r => { r with place := .handing }) with
        handing := Function.update s.handing r.loop (some c) } := by
  have hconn := hi.conn c r hc
  have hconns : ((s.update c Conn.close).update c fun r => { r with place := .handing }).conns =
      Function.update s.conns c (some { r.close with place := .handing }) := by
    rw [conns_update (r := r.close), conns_update hc, update_idem]
    rw [conns_update hc, update_self]
  have hhanding : ∀ d l, d ≠ c →
      (Function.update s.handing r.loop (some c) l = some d ↔ s.handing l = some d) := by
    intro d l hd
    by_cases hl : l = r.loop
    · subst hl
      simp [hfree, Ne.symm hd]
    · rw [update_of_ne hl]
  refine hi.change hc hconns (fun d hd => ?_) ?_ rfl (fun _ _ he => he) rfl id (by simp)
    (hi.lists.of_eq rfl rfl rfl rfl rfl)
  · exact ⟨fun _ => rfl, Iff.rfl, fun l => hhanding d l hd, Iff.rfl, Iff.rfl, rfl⟩
  · refine ⟨fun l => ?_, ?_, fun l => ?_, ?_, ?_, ?_, ?_, ?_, ?_, ?_, ?_, ?_⟩
    · refine (hconn.queue l).trans ?_
      simp [Conn.pending, Conn.close, hestablished, hplace]
    · refine hconn.mapped.trans ?_
      simp [hplace]
    · by_cases hl : l = r.loop
      · subst hl
        simp [Conn.close]
      · have hnot := hconn.handing l
        simp_all [Conn.close]
    · refine hconn.todo.trans ?_
      simp [hplace]
    · refine hconn.owed.trans ?_
      simp [hplace]
    · exact fun h => absurd h hbase
    · simp [Conn.close, hestablished]
    · simp [Conn.close]
    · simp [Conn.close]
    · simpa [Conn.close, hplace] using hconn.log
    · simp
    · intro hstarted
      have := hconn.stopped hstarted
      simp [hplace] at this

theorem Inv.handleClose (hi : Inv s) (hc : s.conns c = some r) (hestablished : r.established = true)
    (hfree : s.handing r.loop = none) : Inv (s.handleClose c) := by
  have hconn := hi.conn c r hc
  by_cases hstate : r.state = .disconnected
  · simpa [State.handleClose, hc, hstate] using hi
  · have hplace := hconn.live hstate
    have hgone : r.place ≠ .gone := by
      intro hg
      simp [hg] at hplace
    rw [handleClose_eq hc hstate]
    split
    · next hstarted =>
      have hmapped : r.place = .mapped := by
        refine hplace.resolve_right fun h => ?_
        rw [hconn.asked h] at hstarted
        cases hstarted
      split
      · exact hi.closeOnBase hc hestablished hmapped
      · next hbase => exact hi.closeOnThread hc hestablished hmapped hbase hfree
    · -- `Stop` was called, and takes care of the connection
      refine hi.change hc (conns_update hc) (fun d _ => .of_eq rfl rfl rfl rfl rfl rfl) ?_ rfl
        (fun _ _ he => he) rfl id (fun hg => absurd hg hgone)
        (hi.lists.of_eq rfl rfl rfl rfl rfl)
      refine hconn.touch ?_ hestablished (fun h => absurd rfl h) (fun h => by cases h)
        (hconn.log hestablished)
      exact .of_eq rfl rfl rfl rfl rfl rfl

theorem Inv.forceCloseInLoop (hi : Inv s) (hfree : s.handing l = none) (c : ℕ) :
    Inv (s.forceCloseInLoop l c) := by
  rw [State.forceCloseInLoop]
  split
  · exact hi
  · next r hc =>
    split
    · next h =>
      refine hi.handleClose hc ?_ (h.1 ▸ hfree)
      by_contra hno
      have hfresh := (hi.conn c r hc).fresh (by simpa using hno)
      rw [h.2] at hfresh
      cases hfresh.1
    · exact hi

theorem Inv.head (hi : Inv s) (h : s.queue l = f :: functors) (hkind : f.kind ≠ .forceClose) :
    ∃ r, s.conns f.conn = some r ∧ r.pending l =
      f.kind :: { s with queue := Function.update s.queue l functors }.mine l f.conn ∧
      ∀ l', l' ≠ l →
        { s with queue := Function.update s.queue l functors }.mine l' f.conn = r.pending l' := by
  have hpop := mine_pop h
  cases hc : s.conns f.conn with
  | none =>
    have hmine := (hi.unknown _ hc).mine l
    grind
  | some r =>
    have hqueue := (hi.conn _ _ hc).queue
    refine ⟨r, rfl, ?_, fun l' hl' => ?_⟩
    · rw [← hqueue l, hpop]
      simp [hkind]
    · rw [← hqueue l', hpop l']
      simp [hl']

theorem pending_of_ne (h : l ≠ r.loop) :
    r.pending l = if l = .base ∧ r.place = .removing then [.remove] else [] := by
  rw [Conn.pending, if_neg h, List.nil_append]

theorem pending_established {rest : List Kind} (h : r.pending l = .established :: rest) :
    l = r.loop ∧ r.established = false ∧ { r with established := true }.pending l = rest := by
  rcases r with ⟨loop, state, reading, established, log, place⟩
  by_cases hl : l = loop <;> by_cases hb : l = .base <;> cases established <;> cases place <;>
    simp_all [Conn.pending]

theorem pending_destroyed {rest : List Kind} (h : r.pending l = .destroyed :: rest) :
    l = r.loop ∧ r.established = true ∧ r.place = .removed ∧ rest = [] := by
  rcases r with ⟨loop, state, reading, established, log, place⟩
  by_cases hl : l = loop <;> by_cases hb : l = .base <;> cases established <;> cases place <;>
    simp_all [Conn.pending]

theorem pending_cleanup {rest : List Kind} (h : r.pending l = .cleanup :: rest) :
    l = r.loop ∧ r.established = true ∧ r.place = .cleaning ∧ rest = [] := by
  rcases r with ⟨loop, state, reading, established, log, place⟩
  by_cases hl : l = loop <;> by_cases hb : l = .base <;> cases established <;> cases place <;>
    simp_all [Conn.pending]

theorem pending_remove {rest : List Kind} (h : r.pending l = .remove :: rest) :
    l = .base ∧ r.place = .removing ∧ rest = [] := by
  rcases r with ⟨loop, state, reading, established, log, place⟩
  by_cases hl : l = loop <;> by_cases hb : l = .base <;> cases established <;> cases place <;>
    simp_all [Conn.pending]

theorem Inv.runEstablished (hi : Inv s) (h : s.queue l = ⟨.established, c⟩ :: functors) :
    Inv ({ s with queue := Function.update s.queue l functors }.update c Conn.establish) := by
  obtain ⟨r, hc, hpending, hother⟩ := hi.head h (by simp)
  have hconn := hi.conn c r hc
  obtain ⟨rfl, hestablished, hrest⟩ := pending_established hpending
  obtain ⟨hstate, hreading, hlog, hplace⟩ := hconn.fresh hestablished
  have hgone : r.place ≠ .gone := by
    intro hg
    simp [hg] at hplace
  have hbase : r.loop ≠ .base := by
    intro hb
    have := (hconn.base hb).1
    simp [hestablished] at this
  refine hi.change hc (conns_update hc) (fun d hd => ?_) ?_ rfl (fun _ _ he => he) rfl
    (fun _ => rfl) (fun hg => absurd hg hgone) (hi.lists.of_eq rfl rfl rfl rfl rfl)
  · exact (same_pop h (.inl (Ne.symm hd))).trans (.of_eq rfl rfl rfl rfl rfl rfl)
  · refine ⟨fun l => ?_, hconn.mapped, hconn.handing, hconn.todo, hconn.owed,
      fun hb => absurd hb hbase, ?_, fun _ => hplace, fun _ => rfl, fun _ => ⟨0, ?_⟩, hconn.asked,
      hconn.stopped⟩
    · by_cases hl : l = r.loop
      · subst hl
        exact hrest.symm
      · exact (hother l hl).trans ((pending_of_ne hl).trans (pending_of_ne (r := r.establish) hl).symm)
    · simp [Conn.establish]
    · simp [Conn.establish, hlog, hgone]

theorem Inv.destroy (hi : Inv s) (hc : s.conns c = some r) (hconns : s'.conns =
      Function.update s.conns c (some r.destroy)) (hestablished : r.established = true)
    (hplace : r.place = .removed ∨ r.place = .cleaning)
    (hmine : ∀ d l, s'.mine l d = if d = c then [] else s.mine l d)
    (hconnections : s'.connections = s.connections) (hhanding : s'.handing = s.handing)
    (hstop : s'.stop = s.stop) (howed : ∀ d, d ∈ s'.owed ↔ d ∈ s.owed ∧ d ≠ c)
    (hstarted : s'.started = s.started) (hnext : s'.nextConnectionId = s.nextConnectionId)
    (hreported : s'.reported = s.reported) (hnone : s.reported r.loop = []) (hlists : Lists s') :
    Inv s' := by
  have hconn := hi.conn c r hc
  have hgone : r.place ≠ .gone := by
    intro hg
    simp [hg] at hplace
  refine hi.change hc hconns (fun d hd => ?_) ?_ hnext (fun l e he => hreported ▸ he) rfl
    (fun h => h) (fun _ => .inr (hreported ▸ hnone)) hlists
  · refine ⟨fun l => by rw [hmine, if_neg hd], by simp [hconnections], by simp [hhanding],
      by simp [hstop], by simp [howed, hd], hstarted⟩
  · refine ⟨fun l => ?_, ?_, fun l => ?_, ?_, ?_, ?_, ?_, ?_, ?_, ?_, ?_, ?_⟩
    · rw [hmine, if_pos rfl]
      simp [Conn.pending, Conn.destroy, hestablished]
    · rw [hconnections, hconn.mapped]
      rcases hplace with h | h <;> simp [h, Conn.destroy]
    · rw [hhanding, hconn.handing]
      rcases hplace with h | h <;> simp [h, Conn.destroy]
    · rw [hstop, hconn.todo]
      rcases hplace with h | h <;> simp [h, Conn.destroy]
    · rw [howed]
      simp [Conn.destroy]
    · exact fun _ => ⟨hestablished, .inr (.inr rfl)⟩
    · simp [Conn.destroy, hestablished]
    · simp [Conn.destroy]
    · simp [Conn.destroy]
    · intro _
      obtain ⟨n, hn⟩ := hconn.log hestablished
      exact ⟨n, by simp [Conn.destroy, hn, hgone]⟩
    · simp [Conn.destroy]
    · exact fun _ => .inr (.inr rfl)

theorem mine_after_pop (h : s.queue l = f :: functors)
    (hrest : { s with queue := Function.update s.queue l functors }.mine l f.conn = [])
    (hother : ∀ l', l' ≠ l →
      { s with queue := Function.update s.queue l functors }.mine l' f.conn = []) (d : ℕ) (l' : Loop) :
    { s with queue := Function.update s.queue l functors }.mine l' d =
      if d = f.conn then [] else s.mine l' d := by
  split
  · next hd =>
    grind
  · next hd => exact (same_pop h (.inl (Ne.symm hd))).mine l'

theorem Inv.runDestroyed (hi : Inv s)
    (h : s.queue l = ⟨.destroyed, c⟩ :: functors) (hnone : s.reported l = []) :
    Inv ({ s with queue := Function.update s.queue l functors }.update c Conn.destroy) := by
  obtain ⟨r, hc, hpending, hother⟩ := hi.head h (by simp)
  obtain ⟨rfl, hestablished, hplace, hrest⟩ := pending_destroyed hpending
  have hconn := hi.conn c r hc
  have hout : ∀ l', l' ≠ r.loop → r.pending l' = [] := fun l' hl' => by
    simp [Conn.pending, hl', hplace]
  have howed : ∀ d, d ∈ s.owed ↔ d ∈ s.owed ∧ d ≠ c := by
    intro d
    refine ⟨fun hd => ⟨hd, ?_⟩, fun hd => hd.1⟩
    rintro rfl
    have := hconn.owed.1 hd
    simp [hplace] at this
  exact hi.destroy hc (conns_update hc) hestablished (.inl hplace)
    (mine_after_pop h hrest fun l' hl' => (hother l' hl').trans (hout l' hl')) rfl rfl rfl howed rfl
    rfl rfl hnone (hi.lists.of_eq rfl rfl rfl rfl rfl)

theorem Inv.runCleanup (hi : Inv s)
    (h : s.queue l = ⟨.cleanup, c⟩ :: functors) (hnone : s.reported l = []) :
    Inv { { s with queue := Function.update s.queue l functors }.update c Conn.destroy with
      pendingCleanup := s.pendingCleanup - 1
      owed := s.owed.erase c } := by
  obtain ⟨r, hc, hpending, hother⟩ := hi.head h (by simp)
  obtain ⟨rfl, hestablished, hplace, hrest⟩ := pending_cleanup hpending
  have hconn := hi.conn c r hc
  have hout : ∀ l', l' ≠ r.loop → r.pending l' = [] := fun l' hl' => by
    simp [Conn.pending, hl', hplace]
  have hmem : c ∈ s.owed := hconn.owed.2 (.inr hplace)
  obtain ⟨h1, h2, h3, h4, h5, h6⟩ := hi.lists
  refine hi.destroy hc (conns_update hc) hestablished (.inr hplace)
    (mine_after_pop h hrest fun l' hl' => (hother l' hl').trans (hout l' hl')) rfl rfl rfl
    (fun d => ?_) rfl rfl rfl hnone ⟨h1, h2, h3.erase c, ?_, h5, fun hreturned => ?_⟩
  · exact (h3.mem_erase_iff).trans and_comm
  · simp [h4, List.length_erase_of_mem hmem]
  · rw [h6 hreturned] at hmem
    cases hmem

theorem Inv.runRemove (hi : Inv s) (h : s.queue l = ⟨.remove, c⟩ :: functors) :
    Inv ({ s with queue := Function.update s.queue l functors }.removeConnectionInLoop c) := by
  obtain ⟨r, hc, hpending, hother⟩ := hi.head h (by simp)
  obtain ⟨rfl, hplace, hrest⟩ := pending_remove hpending
  have hconn := hi.conn c r hc
  have hestablished : r.established = true := by
    by_contra hno
    have := (hconn.fresh (by simpa using hno)).2.2.2
    simp [hplace] at this
  have hbase : r.loop ≠ .base := by
    intro hb
    have := (hconn.base hb).2
    simp [hplace] at this
  have hstate : r.state = .disconnected := by
    by_contra hno
    have := hconn.live hno
    simp [hplace] at this
  have hmap : c ∈ s.connections := hconn.mapped.2 (.inr (.inr hplace))
  rw [removeConnectionInLoop_eq (s := { s with queue := Function.update s.queue .base functors }) hc
    hmap]
  refine hi.remove hc rfl (fun d l => ?_) rfl rfl hestablished hestablished hstate ?_ rfl hmap rfl
    rfl rfl rfl rfl rfl rfl rfl (by simp [hplace])
  · rw [mine_push]
    change { s with queue := Function.update s.queue .base functors }.mine l d ++ _ = _
    by_cases hd : d = c
    · subst hd
      rw [if_pos rfl]
      by_cases hl : l = .base
      · subst hl
        rw [hrest]
        simp [Conn.pending, Ne.symm hbase]
      · rw [hother l hl]
        by_cases hloop : l = r.loop
        · subst hloop
          simp [Conn.pending, hestablished, hplace, hl]
        · simp [Conn.pending, hloop, hl]
    · rw [if_neg hd, if_neg (by simp [Ne.symm hd]), List.append_nil]
      exact (same_pop h (.inl (Ne.symm hd))).mine l
  · by_contra hno
    have := hconn.reading (by simpa using hno)
    rw [hstate] at this
    cases this

theorem Inv.pushForceClose (hi : Inv s) (l : Loop) (c : ℕ) : Inv (s.push l ⟨.forceClose, c⟩) :=
  ⟨fun d r hd => (hi.conn d r hd).congr (same_push (.inr rfl)),
    fun d hd => (hi.unknown d hd).congr (same_push (.inr rfl)), hi.known, hi.events,
    hi.lists.of_eq rfl rfl rfl rfl rfl⟩

theorem Inv.popForceClose (hi : Inv s) (h : s.queue l = ⟨.forceClose, c⟩ :: functors) :
    Inv { s with queue := Function.update s.queue l functors } :=
  ⟨fun d r hd => (hi.conn d r hd).congr (same_pop h (.inr rfl)),
    fun d hd => (hi.unknown d hd).congr (same_pop h (.inr rfl)), hi.known, hi.events,
    hi.lists.of_eq rfl rfl rfl rfl rfl⟩

/-- An I/O thread sends a connection to the base loop. -/
theorem Inv.hand (hi : Inv s) (h : s.handing l = some c) :
    Inv (({ s with handing := Function.update s.handing l none }.update c fun r =>
      { r with place := .removing }).push .base ⟨.remove, c⟩) := by
  cases hc : s.conns c with
  | none => exact absurd h ((hi.unknown c hc).handing l)
  | some r =>
    have hconn := hi.conn c r hc
    obtain ⟨rfl, hplace⟩ := (hconn.handing l).1 h
    have hestablished : r.established = true := by
      by_contra hno
      have := (hconn.fresh (by simpa using hno)).2.2.2
      simp [hplace] at this
    have hbase : r.loop ≠ .base := by
      intro hb
      have := (hconn.base hb).2
      simp [hplace] at this
    have hhanding : ∀ d l, d ≠ c →
        (Function.update s.handing r.loop none l = some d ↔ s.handing l = some d) := by
      intro d l hd
      by_cases hl : l = r.loop
      · subst hl
        simp [h, Ne.symm hd]
      · rw [update_of_ne hl]
    have hmine : ∀ d l, (({ s with handing := Function.update s.handing r.loop none }.update c
        fun r => { r with place := .removing }).push .base ⟨.remove, c⟩).mine l d =
        s.mine l d ++ if l = .base ∧ c = d then [.remove] else [] := by
      intro d l
      rw [mine_push]
      simp only [ne_eq, reduceCtorEq, not_false_eq_true, and_true]
      rfl
    refine hi.change hc (conns_update hc) (fun d hd => ?_) ?_ rfl (fun _ _ he => he) rfl id
      (by simp) (hi.lists.of_eq rfl rfl rfl rfl rfl)
    · refine ⟨fun l => ?_, Iff.rfl, fun l => hhanding d l hd, Iff.rfl, Iff.rfl, rfl⟩
      rw [hmine, if_neg (by simp [Ne.symm hd]), List.append_nil]
    · refine ⟨fun l => ?_, ?_, fun l => ?_, ?_, ?_, ?_, ?_, ?_, hconn.reading, ?_, ?_, ?_⟩
      · rw [hmine, hconn.queue]
        by_cases hl : l = .base
        · subst hl
          simp [Conn.pending, Ne.symm hbase, hplace]
        · simp [Conn.pending, hl, hplace]
      · refine hconn.mapped.trans ?_
        simp [hplace]
      · change Function.update s.handing r.loop none l = some c ↔ _
        by_cases hl : l = r.loop
        · subst hl
          simp
        · rw [update_of_ne hl, hconn.handing]
          simp [hl]
      · refine hconn.todo.trans ?_
        simp [hplace]
      · refine hconn.owed.trans ?_
        simp [hplace]
      · exact fun h => absurd h hbase
      · simp [hestablished]
      · intro hstate
        have := hconn.live hstate
        simp [hplace] at this
      · simpa [hplace] using hconn.log
      · simp
      · intro hstarted
        have := hconn.stopped hstarted
        simp [hplace] at this

theorem connInv_new {l : Loop} {r : Conn} (hr : r = ⟨l, .connecting, false, false, [], .mapped⟩ ∧
      l ≠ .base ∨ r = Conn.establish ⟨l, .connecting, false, false, [], .mapped⟩)
    (hmine : ∀ l, s.mine l c = r.pending l) (hmap : c ∈ s.connections)
    (hhanding : ∀ l, s.handing l ≠ some c) (htodo : c ∉ s.stop.todo) (howed : c ∉ s.owed)
    (hstarted : s.started = true) : ConnInv s c r := by
  rcases hr with ⟨rfl, hl⟩ | rfl
  · constructor <;> simp_all
  · constructor <;> simp_all [Conn.establish]

/-- A connection is accepted. -/
theorem Inv.accept (hi : Inv s) (hstarted : s.started = true) (l : Loop) : Inv (s.accept l) := by
  have hnone : s.conns s.nextConnectionId = none := (hi.known _).2 le_rfl
  have hunknown := hi.unknown _ hnone
  have hconns : (s.accept l).conns = Function.update s.conns s.nextConnectionId
      (some (if l = .base then Conn.establish ⟨l, .connecting, false, false, [], .mapped⟩
        else ⟨l, .connecting, false, false, [], .mapped⟩)) := by
    rw [State.accept]
    split <;> rfl
  have hmine : ∀ d l', (s.accept l).mine l' d = s.mine l' d ++
      if l' = l ∧ s.nextConnectionId = d ∧ l ≠ .base then [.established] else [] := by
    intro d l'
    rw [State.accept]
    split
    · next hl =>
      simp [hl]
      rfl
    · next hl =>
      rw [mine_push]
      simp [hl]
      rfl
  have hother : ∀ d, d ≠ s.nextConnectionId → (s.accept l).conns d = s.conns d := fun d hd => by
    rw [hconns, update_of_ne hd]
  have hconnections : (s.accept l).connections = s.connections ++ [s.nextConnectionId] := by
    rw [State.accept]
    split <;> rfl
  have hrest : (s.accept l).handing = s.handing ∧ (s.accept l).stop = s.stop ∧
      (s.accept l).owed = s.owed ∧ (s.accept l).started = s.started ∧
      (s.accept l).pendingCleanup = s.pendingCleanup ∧ (s.accept l).reported = s.reported ∧
      (s.accept l).nextConnectionId = s.nextConnectionId + 1 := by
    rw [State.accept]
    split <;> exact ⟨rfl, rfl, rfl, rfl, rfl, rfl, rfl⟩
  obtain ⟨hhanding, hstop, howed, hst, hpending, hreported, hnext⟩ := hrest
  have hsame : ∀ d, d ≠ s.nextConnectionId → Same s (s.accept l) d := by
    intro d hd
    refine ⟨fun l' => ?_, ?_, by simp [hhanding], by simp [hstop], by simp [howed], hst⟩
    · rw [hmine, if_neg (by simp [Ne.symm hd]), List.append_nil]
    · simp [hconnections, hd]
  refine ⟨fun d r hd => ?_, fun d hd => ?_, fun d => ?_, fun l' e he => ?_, ?_⟩
  · by_cases hdc : d = s.nextConnectionId
    · subst hdc
      rw [hconns, update_self, Option.some.injEq] at hd
      refine connInv_new (l := l) ?_ (fun l' => ?_) (by simp [hconnections])
        (fun l' => hhanding ▸ hunknown.handing l') (hstop ▸ hunknown.todo) (howed ▸ hunknown.owed)
        (hst.trans hstarted)
      · grind
      · rw [hmine, hunknown.mine, ← hd]
        by_cases hl : l = .base
        · simp [hl, Conn.pending, Conn.establish]
        · by_cases hl' : l' = l
          · simp [hl', hl, Conn.pending]
          · simp [hl', hl, Conn.pending]
    · exact (hi.conn d r ((hother d hdc).symm.trans hd)).congr (hsame d hdc)
  · have hdc : d ≠ s.nextConnectionId := by
      rintro rfl
      rw [hconns, update_self] at hd
      cases hd
    exact (hi.unknown d ((hother d hdc).symm.trans hd)).congr (hsame d hdc)
  · rw [hnext]
    by_cases hdc : d = s.nextConnectionId
    · subst hdc
      simp [hconns]
    · rw [hother d hdc, hi.known]
      omega
  · rw [hreported] at he
    obtain ⟨r, hr, h⟩ := hi.events l' e he
    refine ⟨r, ?_, h⟩
    rw [hother _ (fun hec => ?_), hr]
    rw [hec, hnone] at hr
    cases hr
  · obtain ⟨h1, h2, h3, h4, h5, h6⟩ := hi.lists
    refine ⟨?_, hstop ▸ h2, howed ▸ h3, by rw [hpending, howed, h4], by rw [hst, hstop, h5],
      by rw [hstop, howed]; exact h6⟩
    rw [hconnections]
    exact List.nodup_append.2 ⟨h1, List.nodup_singleton _, fun a ha b hb => by
      rw [List.mem_singleton.1 hb]
      rintro rfl
      exact hunknown.connections ha⟩

/-! ## The steps of `Stop` -/

theorem Inv.place_of_good (hi : Inv s) (hc : s.conns c = some r) (hstarted : s.started = true)
    (hgood : Good s .stop) : r.place = .mapped ∨ r.place = .gone := by
  obtain ⟨-, hhanding, hqueue⟩ := hgood
  have hconn := hi.conn c r hc
  have hmem : ∀ l k, k ∈ s.mine l c → k ≠ .remove ∧ k ≠ .destroyed := by
    intro l k hk
    obtain ⟨f, hf, rfl⟩ := List.mem_map.1 hk
    exact hqueue l f (List.mem_filter.1 hf).1
  cases hp : r.place with
  | mapped => exact .inl rfl
  | gone => exact .inr rfl
  | handing =>
    have := (hconn.handing r.loop).2 ⟨rfl, hp⟩
    rw [hhanding] at this
    cases this
  | removing =>
    refine absurd rfl (hmem .base .remove ?_).1
    rw [hconn.queue]
    simp [Conn.pending, hp]
  | removed =>
    refine absurd rfl (hmem r.loop .destroyed ?_).2
    rw [hconn.queue]
    simp [Conn.pending, hp]
  | stopping | cleaning =>
    have := hconn.asked (by simp [hp])
    rw [hstarted] at this
    cases this

theorem mem_remote (hc : s.conns c = some r) :
    c ∈ s.remote ↔ c ∈ s.connections ∧ r.loop ≠ .base := by
  simp [State.remote, List.mem_filter, hc]

theorem conns_beginStop (hi : Inv s) (hc : s.conns c = some r) (hstarted : s.started = true)
    (hgood : Good s .stop) : s.beginStop.conns c = some (if r.place = .mapped then
      if r.loop = .base then r.destroy else { r with place := .stopping } else r) := by
  have hconn := hi.conn c r hc
  have hplace := hi.place_of_good hc hstarted hgood
  have hmap : c ∈ s.connections ↔ r.place = .mapped := by
    rw [hconn.mapped]
    rcases hplace with h | h <;> simp [h]
  simp only [State.beginStop, hmap, hc, Option.map_some]
  split <;> rfl

/-- What is said about a connection when `Stop` has begun. -/
theorem Inv.connBeginStop (hi : Inv s) (hstarted : s.started = true) (hgood : Good s .stop)
    (hc : s.conns c = some r) : ConnInv s.beginStop c (if r.place = .mapped then
      if r.loop = .base then r.destroy else { r with place := .stopping } else r) := by
  have hconn := hi.conn c r hc
  have hremote := mem_remote hc
  have hhanding : ∀ l, s.beginStop.handing l ≠ some c := fun l => by
    change s.handing l ≠ some c
    rw [hgood.2.1 l]
    simp
  have hmine : ∀ l, s.beginStop.mine l c = r.pending l := hconn.queue
  have htodo : c ∈ s.beginStop.stop.todo ↔ c ∈ s.connections ∧ r.loop ≠ .base := hremote
  have howed : c ∈ s.beginStop.owed ↔ c ∈ s.connections ∧ r.loop ≠ .base := hremote
  have hmapped := hconn.mapped
  have hempty : c ∉ s.beginStop.connections := List.not_mem_nil
  have hstopped : s.beginStop.started = false := rfl
  rcases hi.place_of_good hc hstarted hgood with hplace | hplace
  · have hmap : c ∈ s.connections := hmapped.2 (.inl hplace)
    rw [if_pos hplace]
    by_cases hbase : r.loop = .base
    · obtain ⟨hestablished, -⟩ := hconn.base hbase
      obtain ⟨n, hlog⟩ := hconn.log hestablished
      rw [if_pos hbase]
      constructor
      · intro l
        rw [hmine]
        simp [Conn.pending, Conn.destroy, hestablished, hplace]
      · simp [hempty, Conn.destroy]
      · simp [hhanding, Conn.destroy]
      · simp [htodo, hbase, Conn.destroy]
      · simp [howed, hbase, Conn.destroy]
      · exact fun _ => ⟨hestablished, .inr (.inr rfl)⟩
      · simp [Conn.destroy, hestablished]
      · simp [Conn.destroy]
      · simp [Conn.destroy]
      · exact fun _ => ⟨n, by simp [Conn.destroy, hlog, hplace]⟩
      · simp [Conn.destroy]
      · exact fun _ => .inr (.inr rfl)
    · rw [if_neg hbase]
      constructor
      · intro l
        rw [hmine]
        simp [Conn.pending, hplace]
      · simp [hempty]
      · simp [hhanding]
      · simp [htodo, hbase, hmap]
      · simp [howed, hbase, hmap]
      · exact fun h => absurd h hbase
      · intro h
        obtain ⟨hstate, hreading, hlog, -⟩ := hconn.fresh h
        exact ⟨hstate, hreading, hlog, .inr (.inl rfl)⟩
      · exact fun _ => .inr (.inl rfl)
      · exact hconn.reading
      · simpa [hplace] using hconn.log
      · exact fun _ => hstopped
      · exact fun _ => .inl rfl
  · have hmap : c ∉ s.connections := by simp [hmapped, hplace]
    rw [if_neg (by simp [hplace])]
    constructor
    · exact hmine
    · simp [hempty, hplace]
    · simp [hhanding, hplace]
    · simp [htodo, hmap, hplace]
    · simp [howed, hmap, hplace]
    · exact hconn.base
    · exact hconn.fresh
    · exact hconn.live
    · exact hconn.reading
    · exact hconn.log
    · exact fun _ => hstopped
    · exact fun _ => .inr (.inr hplace)

theorem Inv.beginStop (hi : Inv s) (hstarted : s.started = true) (hgood : Good s .stop) :
    Inv s.beginStop := by
  have hnone : ∀ d, s.beginStop.conns d = none ↔ s.conns d = none := by
    intro d
    simp only [State.beginStop]
    split <;> simp
  have hnodup : s.remote.Nodup := hi.lists.connections.filter _
  refine ⟨fun d q hd => ?_, fun d hd => ?_, fun d => (hnone d).trans (hi.known d), fun l e he => ?_,
    ⟨List.nodup_nil, hnodup, hnodup, rfl, by simp [State.beginStop], by simp [State.beginStop]⟩⟩
  · cases hc : s.conns d with
    | none =>
      rw [(hnone d).2 hc] at hd
      cases hd
    | some r =>
      rw [conns_beginStop hi hc hstarted hgood, Option.some.injEq] at hd
      exact hd ▸ hi.connBeginStop hstarted hgood hc
  · have hunknown := hi.unknown d ((hnone d).1 hd)
    have hremote : d ∉ s.remote := fun h => hunknown.connections (List.mem_filter.1 h).1
    exact ⟨hunknown.mine, List.not_mem_nil, hunknown.handing, hremote, hremote⟩
  · obtain ⟨r, hc, hloop, hestablished, hgone⟩ := hi.events l e he
    refine ⟨_, conns_beginStop hi hc hstarted hgood, ?_⟩
    rcases hi.place_of_good hc hstarted hgood with hplace | hplace
    · have hbase : r.loop ≠ .base := by
        rintro hb
        rw [← hloop, hb] at he
        change e ∈ s.reported .base at he
        rw [hgood.1] at he
        cases he
      grind
    · exact absurd hplace hgone

/-- `Stop` queues the clean-up of a connection. -/
theorem Inv.stopQueue (hi : Inv s) {todo : List ℕ} (hstop : s.stop = .queueing (c :: todo))
    (hc : s.conns c = some r) :
    Inv (({ s with stop := .queueing todo }.update c fun r => { r with place := .cleaning }).push
      r.loop ⟨.cleanup, c⟩) := by
  have hconn := hi.conn c r hc
  obtain ⟨h1, h2, h3, h4, h5, h6⟩ := hi.lists
  rw [hstop] at h2 h5
  have hnodup : c ∉ todo ∧ todo.Nodup := List.nodup_cons.1 h2
  have hplace : r.place = .stopping := by
    rw [← hconn.todo, hstop]
    exact List.mem_cons_self
  have hbase : r.loop ≠ .base := by
    intro hb
    have := (hconn.base hb).2
    simp [hplace] at this
  have hmine : ∀ d l, (({ s with stop := .queueing todo }.update c
      fun r => { r with place := .cleaning }).push r.loop ⟨.cleanup, c⟩).mine l d =
      s.mine l d ++ if l = r.loop ∧ c = d then [.cleanup] else [] := by
    intro d l
    rw [mine_push]
    simp only [ne_eq, reduceCtorEq, not_false_eq_true, and_true]
    rfl
  refine hi.change hc (conns_update hc) (fun d hd => ?_) ?_ rfl (fun _ _ he => he) rfl id (by simp)
    ⟨h1, hnodup.2, h3, h4, by simpa [State.push, State.update] using h5,
      by simp [State.push, State.update]⟩
  · refine ⟨fun l => ?_, Iff.rfl, fun _ => Iff.rfl, ?_, Iff.rfl, rfl⟩
    · rw [hmine, if_neg (by simp [Ne.symm hd]), List.append_nil]
    · change d ∈ todo ↔ _
      rw [hstop]
      simp [Stop.todo, hd]
  · refine ⟨fun l => ?_, ?_, fun l => ?_, ?_, ?_, fun h => absurd h hbase, fun h => ?_,
      fun _ => .inr (.inr rfl), hconn.reading, ?_, fun _ => hconn.asked (.inl hplace),
      fun _ => .inr (.inl rfl)⟩
    · rw [hmine, hconn.queue]
      by_cases hl : l = r.loop
      · subst hl
        simp [Conn.pending, hplace]
      · simp [Conn.pending, hl, hplace]
    · refine hconn.mapped.trans ?_
      simp [hplace]
    · refine (hconn.handing l).trans ?_
      simp [hplace]
    · change c ∈ todo ↔ _
      simp [hnodup.1]
    · refine hconn.owed.trans ?_
      simp [hplace]
    · obtain ⟨hstate, hreading, hlog, -⟩ := hconn.fresh h
      exact ⟨hstate, hreading, hlog, .inr (.inr rfl)⟩
    · simpa [hplace] using hconn.log

theorem Inv.stopReturn (hi : Inv s) (hstop : s.stop = .queueing []) (hpending : s.pendingCleanup = 0) :
    Inv { s with stop := .returned } := by
  obtain ⟨h1, h2, h3, h4, h5, h6⟩ := hi.lists
  have hsame : ∀ c, Same s { s with stop := .returned } c := fun c =>
    ⟨fun _ => rfl, Iff.rfl, fun _ => Iff.rfl, by simp [hstop, Stop.todo], Iff.rfl, rfl⟩
  rw [hstop] at h5
  refine ⟨fun c r hc => (hi.conn c r hc).congr (hsame c),
    fun c hc => (hi.unknown c hc).congr (hsame c), hi.known, hi.events,
    ⟨h1, List.nodup_nil, h3, h4, by simpa using h5, fun _ => ?_⟩⟩
  exact List.length_eq_zero_iff.1 (h4.symm.trans hpending)

/-! ## Runs -/

theorem handing_of_free (hi : Inv s) (h : s.free l = true) : s.handing l = none := by
  cases l with
  | io i =>
    simp only [State.free, Bool.and_eq_true] at h
    simpa using h.2
  | base =>
    cases hh : s.handing .base with
    | none => rfl
    | some c =>
      cases hc : s.conns c with
      | none => exact absurd hh ((hi.unknown c hc).handing .base)
      | some r =>
        have hconn := hi.conn c r hc
        obtain ⟨hloop, hplace⟩ := (hconn.handing .base).1 hh
        have := (hconn.base hloop.symm).2
        simp [hplace] at this

theorem Inv.run (hi : Inv s)
    (h : s.queue l = f :: functors) (hfree : s.free l = true) (hnone : s.reported l = []) :
    Inv ({ s with queue := Function.update s.queue l functors }.run l f) := by
  obtain ⟨kind, c⟩ := f
  cases kind with
  | established => exact hi.runEstablished h
  | destroyed => exact hi.runDestroyed h hnone
  | cleanup => exact hi.runCleanup h hnone
  | remove => exact hi.runRemove h
  | forceClose =>
    have hhanding : s.handing l = none := handing_of_free hi hfree
    exact (hi.popForceClose h).forceCloseInLoop hhanding c

theorem Inv.event (hi : Inv s) {e : Event} {events : List Event} (h : s.reported l = e :: events)
    (hfree : s.free l = true) : Inv (s.apply (.event l)) := by
  simp only [State.apply, h]
  split
  · obtain ⟨r, hc, hloop, hestablished, -⟩ := hi.events l e (h ▸ List.mem_cons_self)
    have hi' : Inv { s with reported := Function.update s.reported l events } := by
      refine ⟨fun c r hc => (hi.conn c r hc).congr (.of_eq rfl rfl rfl rfl rfl rfl),
        fun c hc => (hi.unknown c hc).congr (.of_eq rfl rfl rfl rfl rfl rfl), hi.known,
        fun l' e' he' => ?_, hi.lists.of_eq rfl rfl rfl rfl rfl⟩
      by_cases hl : l' = l
      · subst hl
        refine hi.events l' e' (h ▸ List.mem_cons_of_mem e ?_)
        simpa using he'
      · exact hi.events l' e' (by simpa [hl] using he')
    have hhanding : s.handing r.loop = none := hloop ▸ handing_of_free hi hfree
    exact hi'.handleClose hc hestablished hhanding
  · exact hi.message h

/-- A good step keeps the invariant. -/
theorem Inv.step (hi : Inv s) (h : GoodStep s a s') : Inv s' := by
  obtain ⟨⟨henabled, rfl⟩, hgood⟩ := h
  cases a with
  | accept l =>
    rw [State.enabled, Bool.and_eq_true] at henabled
    exact hi.accept henabled.1 l
  | poll l events => exact hi.poll henabled
  | event l =>
    simp only [State.enabled, Bool.and_eq_true, decide_eq_true_eq] at henabled
    obtain ⟨e, events, h⟩ := List.exists_cons_of_ne_nil henabled.2
    exact hi.event h henabled.1
  | functor l =>
    simp only [State.enabled, Bool.and_eq_true, decide_eq_true_eq] at henabled
    obtain ⟨f, functors, h⟩ := List.exists_cons_of_ne_nil henabled.2
    simp only [State.apply, h]
    exact hi.run h henabled.1.1 henabled.1.2
  | hand l =>
    simp only [State.enabled, Bool.and_eq_true] at henabled
    obtain ⟨c, h⟩ := Option.isSome_iff_exists.1 henabled.2
    simp only [State.apply, h]
    exact hi.hand h
  | forceClose c =>
    rw [State.apply]
    split
    · exact hi
    · exact hi.pushForceClose _ c
  | forceCloseInLoop l c => exact hi.forceCloseInLoop (handing_of_free hi henabled) c
  | stop =>
    rw [State.enabled, Bool.and_eq_true] at henabled
    exact hi.beginStop henabled.1 hgood
  | stopQueue =>
    rw [State.apply]
    split
    · next c todo hstop =>
      split
      · exact hi
      · next r hc => exact hi.stopQueue hstop hc
    · exact hi
  | stopReturn =>
    simp only [State.enabled, Bool.and_eq_true, decide_eq_true_eq] at henabled
    exact hi.stopReturn henabled.1 henabled.2

theorem inv_run {as : List Act} (h : Run GoodStep State.init as s) : Inv s :=
  h.invariant (fun _ _ _ hi hs => hi.step hs) inv_init

/-! ## Accounts -/

structure Accounts (s : State) : Prop where
  count : s.connectionCount = s.connections.length
  total : s.acceptedTotal = s.closedTotal + s.connections.length

theorem accounts_removeConnectionInLoop (h : Accounts s) (c : ℕ) :
    Accounts (s.removeConnectionInLoop c) := by
  rw [State.removeConnectionInLoop]
  split
  · exact h
  · split
    · next hmem =>
      refine ⟨rfl, ?_⟩
      have hlen := List.length_erase_of_mem hmem
      have hpos := List.length_pos_of_mem hmem
      have := h.total
      simp only [State.push, State.update]
      omega
    · exact h

theorem accounts_handleClose (h : Accounts s) (c : ℕ) : Accounts (s.handleClose c) := by
  rw [State.handleClose]
  split
  · exact h
  · split
    · exact h
    · dsimp only
      split
      · split
        · exact accounts_removeConnectionInLoop (s := s.update c Conn.close) ⟨h.count, h.total⟩ c
        · exact ⟨h.count, h.total⟩
      · exact ⟨h.count, h.total⟩

theorem accounts_forceCloseInLoop (h : Accounts s) (l : Loop) (c : ℕ) :
    Accounts (s.forceCloseInLoop l c) := by
  rw [State.forceCloseInLoop]
  split
  · exact h
  · split
    · exact accounts_handleClose h c
    · exact h

theorem Accounts.step (h : Accounts s) (hs : Step s a s') : Accounts s' := by
  obtain ⟨-, rfl⟩ := hs
  cases a with
  | accept l =>
    have := h.total
    rw [State.apply, State.accept]
    split <;> exact ⟨by simp [State.push], by simp [State.push]; omega⟩
  | poll l events => exact ⟨h.count, h.total⟩
  | event l =>
    rw [State.apply]
    split
    · exact h
    · next e events _ =>
      have h' : Accounts { s with reported := Function.update s.reported l events } :=
        ⟨h.count, h.total⟩
      split
      · exact accounts_handleClose h' e.conn
      · exact ⟨h.count, h.total⟩
  | functor l =>
    rw [State.apply]
    split
    · exact h
    · next f functors _ =>
      have h' : Accounts { s with queue := Function.update s.queue l functors } :=
        ⟨h.count, h.total⟩
      obtain ⟨kind, c⟩ := f
      cases kind with
      | established | destroyed | cleanup => exact ⟨h.count, h.total⟩
      | remove => exact accounts_removeConnectionInLoop h' c
      | forceClose => exact accounts_forceCloseInLoop h' l c
  | hand l | forceClose c =>
    rw [State.apply]
    split
    · exact h
    · exact ⟨h.count, h.total⟩
  | forceCloseInLoop l c => exact accounts_forceCloseInLoop h l c
  | stop =>
    have := h.total
    exact ⟨rfl, by simp [State.apply, State.beginStop, this]⟩
  | stopQueue =>
    rw [State.apply]
    split
    · split
      · exact h
      · exact ⟨h.count, h.total⟩
    · exact h
  | stopReturn => exact ⟨h.count, h.total⟩

theorem accounts_run {as : List Act} (h : Run Step State.init as s) : Accounts s :=
  h.invariant (fun _ _ _ hs hstep => hs.step hstep) ⟨rfl, rfl⟩

/-! ## Names -/

def Known (s : State) : Prop := ∀ c, s.conns c = none ↔ s.nextConnectionId ≤ c

theorem known_update (h : Known s) (c : ℕ) (f : Conn → Conn) : Known (s.update c f) := by
  intro d
  refine Iff.trans ?_ (h d)
  by_cases hd : d = c
  · subst hd
    simp [State.update]
  · simp [State.update, hd]

theorem known_removeConnectionInLoop (h : Known s) (c : ℕ) : Known (s.removeConnectionInLoop c) := by
  rw [State.removeConnectionInLoop]
  split
  · exact h
  · split
    · exact known_update (s := { s with
        connections := s.connections.erase c
        connectionCount := (s.connections.erase c).length
        closedTotal := s.closedTotal + 1 }) h c _
    · exact h

theorem known_handleClose (h : Known s) (c : ℕ) : Known (s.handleClose c) := by
  rw [State.handleClose]
  split
  · exact h
  · split
    · exact h
    · dsimp only
      split
      · split
        · exact known_removeConnectionInLoop (known_update h c _) c
        · exact known_update (known_update h c _) c _
      · exact known_update h c _

theorem known_forceCloseInLoop (h : Known s) (l : Loop) (c : ℕ) : Known (s.forceCloseInLoop l c) := by
  rw [State.forceCloseInLoop]
  split
  · exact h
  · split
    · exact known_handleClose h c
    · exact h

theorem known_accept (h : Known s) (l : Loop) : Known (s.accept l) := by
  have hnew : ∀ r : Conn, ∀ c, Function.update s.conns s.nextConnectionId (some r) c = none ↔
      s.nextConnectionId + 1 ≤ c := by
    intro r c
    by_cases hc : c = s.nextConnectionId
    · subst hc
      simp
    · rw [update_of_ne hc, h c]
      omega
  rw [State.accept]
  split <;> exact hnew _

theorem Known.step (h : Known s) (hs : Step s a s') : Known s' := by
  obtain ⟨-, rfl⟩ := hs
  cases a with
  | accept l => exact known_accept h l
  | poll l events => exact h
  | event l =>
    rw [State.apply]
    split
    · exact h
    · next e events _ =>
      have h' : Known { s with reported := Function.update s.reported l events } := h
      split
      · exact known_handleClose h' e.conn
      · exact known_update h' e.conn _
  | functor l =>
    rw [State.apply]
    split
    · exact h
    · next f functors _ =>
      have h' : Known { s with queue := Function.update s.queue l functors } := h
      obtain ⟨kind, c⟩ := f
      cases kind with
      | established | destroyed | cleanup => exact known_update h' c _
      | remove => exact known_removeConnectionInLoop h' c
      | forceClose => exact known_forceCloseInLoop h' l c
  | hand l =>
    rw [State.apply]
    split
    · exact h
    · next c _ =>
      exact known_update (s := { s with handing := Function.update s.handing l none }) h c _
  | forceClose c =>
    rw [State.apply]
    split <;> exact h
  | forceCloseInLoop l c => exact known_forceCloseInLoop h l c
  | stop =>
    intro c
    refine Iff.trans ?_ (h c)
    simp only [State.apply, State.beginStop]
    split <;> simp
  | stopQueue =>
    rw [State.apply]
    split
    · next c todo _ =>
      split
      · exact h
      · exact known_update (s := { s with stop := .queueing todo }) h c _
    · exact h
  | stopReturn => exact h

theorem known_run {as : List Act} (h : Run Step State.init as s) : Known s :=
  h.invariant (fun _ _ _ hs hstep => hs.step hstep) fun c => by simp [State.init]

theorem dash_not_mem_decimal (n : ℕ) : (45 : UInt8) ∉ decimal n := by
  rw [decimal_eq]
  intro h
  obtain ⟨c, hc, heq⟩ := List.mem_map.1 h
  have hr := digit_range (Nat.isDigit_of_mem_toDigits (by decide) (by decide) hc)
  have hn := congrArg UInt8.toNat heq
  rw [UInt8.toNat_ofNat'] at hn
  have h45 : (45 : UInt8).toNat = 45 := rfl
  omega

theorem connectionName_injective {name : Bytes} {i j : ℕ} {p q : Bytes}
    (h : connectionName name i p = connectionName name j q) : i = j := by
  simp only [connectionName, List.append_assoc] at h
  have h := List.append_cancel_left (List.append_cancel_left h)
  exact decimal_injective
    (append_cons_inj (dash_not_mem_decimal i) (dash_not_mem_decimal j) h).1

/-! ## Lives -/

/-- The callbacks of a connection so far: none, or connected and then messages, and at most one
disconnected after them. -/
def Conn.Lives (r : Conn) : Prop :=
  r.log = [] ∨ ∃ n, r.log = .connected :: List.replicate n .message ++
    if r.place = .gone then [.disconnected] else []

def Conn.Lived (r : Conn) : Prop :=
  ∃ n, r.log = .connected :: List.replicate n .message ++ [.disconnected]

theorem ConnInv.lives (h : ConnInv s c r) : r.Lives := by
  cases hestablished : r.established with
  | false => exact .inl (h.fresh hestablished).2.2.1
  | true => exact .inr (h.log hestablished)

theorem Inv.gone (hi : Inv s) (hreturned : s.stop = .returned) (hc : s.conns c = some r) :
    r.place = .gone ∧ r.established = true := by
  have hconn := hi.conn c r hc
  have howed := hconn.owed
  rw [hi.lists.returned hreturned] at howed
  have hstarted : s.started = false := by
    by_contra hno
    have := hi.lists.started.1 (by simpa using hno)
    rw [hreturned] at this
    cases this
  have hgone : r.place = .gone := by
    rcases hconn.stopped hstarted with h | h | h
    · simp [h] at howed
    · simp [h] at howed
    · exact h
  refine ⟨hgone, ?_⟩
  by_contra hno
  have := (hconn.fresh (by simpa using hno)).2.2.2
  simp [hgone] at this

theorem Inv.lived (hi : Inv s) (hreturned : s.stop = .returned) (hc : s.conns c = some r) :
    r.Lived := by
  obtain ⟨hgone, hestablished⟩ := hi.gone hreturned hc
  obtain ⟨n, hn⟩ := (hi.conn c r hc).log hestablished
  rw [if_pos hgone] at hn
  exact ⟨n, hn⟩

theorem Inv.queue_returned (hi : Inv s) (hreturned : s.stop = .returned)
    (hf : f ∈ s.queue l) : f.kind = .forceClose := by
  by_contra hkind
  have hmem : f.kind ∈ s.mine l f.conn :=
    List.mem_map_of_mem (List.mem_filter.2 ⟨hf, by simp [hkind]⟩)
  cases hc : s.conns f.conn with
  | none =>
    rw [(hi.unknown _ hc).mine l] at hmem
    cases hmem
  | some r =>
    obtain ⟨hgone, hestablished⟩ := hi.gone hreturned hc
    rw [(hi.conn _ _ hc).queue l] at hmem
    simp [Conn.pending, hgone, hestablished] at hmem

theorem Inv.handing_returned (hi : Inv s) (hreturned : s.stop = .returned) (l : Loop) :
    s.handing l = none := by
  cases hh : s.handing l with
  | none => rfl
  | some c =>
    cases hc : s.conns c with
    | none => exact absurd hh ((hi.unknown c hc).handing l)
    | some r =>
      have := (((hi.conn c r hc).handing l).1 hh).2
      rw [(hi.gone hreturned hc).1] at this
      cases this

/-- The counters of the server are right and names are distinct in every run.  In a run in which
`Stop` meets no connection on its way out, a connection never has a callback out of order, and by the
time `Stop` has returned every connection has had its callbacks, and the base loop has nothing left
to do for the server. -/
theorem connections_live_once {as : List Act} (h : Run Step State.init as s) :
    Accounts s ∧ Known s ∧
      (∀ name i j p q, connectionName name i p = connectionName name j q → i = j) ∧
      (Run GoodStep State.init as s → (∀ c r, s.conns c = some r → r.Lives) ∧
        (s.stop = .returned → (∀ c r, s.conns c = some r → r.Lived) ∧
          (∀ f ∈ s.queue .base, f.kind = .forceClose) ∧ ∀ l, s.handing l = none)) := by
  refine ⟨accounts_run h, known_run h, fun name i j p q => connectionName_injective,
    fun hgood => ?_⟩
  have hi := inv_run hgood
  exact ⟨fun c r hc => (hi.conn c r hc).lives, fun hreturned =>
    ⟨fun c r hc => hi.lived hreturned hc, fun f hf => hi.queue_returned hreturned hf,
      hi.handing_returned hreturned⟩⟩

def sampleServed : State :=
  [Act.accept (.io 0), .functor (.io 0), .poll (.io 0) [⟨0, false⟩], .event (.io 0)].foldl
    State.apply State.init

def sampleStopped : State :=
  [Act.stopQueue, .functor (.io 0), .stopReturn].foldl State.apply sampleServed.beginStop

theorem sample_good : ∃ as, Run GoodStep State.init as sampleStopped := by
  have hstep : ∀ s a, (s.enabled a && a ≠ .stop) = true → GoodStep s a (s.apply a) := by
    intro s a h
    simp only [Bool.and_eq_true, decide_eq_true_eq] at h
    refine ⟨⟨h.1, rfl⟩, ?_⟩
    cases a <;> simp_all [Good]
  have hserved : Run GoodStep State.init _ sampleServed := .of_allowed hstep (by decide)
  have hstop : GoodStep sampleServed .stop sampleServed.beginStop := by
    refine ⟨⟨by decide, rfl⟩, rfl, fun _ => rfl, fun l f hf => ?_⟩
    have hqueue : sampleServed.queue l = [] := by
      simp [sampleServed, State.apply, State.accept, State.init, State.push, State.run, State.update]
    rw [hqueue] at hf
    cases hf
  have hstopped : Run GoodStep sampleServed.beginStop _ sampleStopped :=
    .of_allowed hstep (by decide)
  exact ⟨_, (hserved.snoc hstop).append hstopped⟩

theorem connections_live_once_sample : ∃ r, sampleStopped.conns 0 = some r ∧ r.Lived := by
  obtain ⟨as, hgood⟩ := sample_good
  have h := connections_live_once (hgood.imp fun _ _ _ hs => hs.1)
  obtain ⟨r, hr⟩ : ∃ r, sampleStopped.conns 0 = some r := ⟨_, rfl⟩
  exact ⟨r, hr, ((h.2.2.2 hgood).2 rfl).1 0 r hr⟩

/-- `Stop` may return with a hand-over to the server queued, with a connection that was not
destroyed, and with an event that is handled after the connection was destroyed. -/
theorem connections_left_behind :
    (∃ as s, Run Step State.init as s ∧ s.stop = .returned ∧
      ⟨.remove, 0⟩ ∈ s.queue .base) ∧
    (∃ as s, Run Step State.init as s ∧ s.stop = .returned ∧
      (s.conns 0).map Conn.log = some [.connected]) ∧
    ∃ as s, Run Step State.init as s ∧ s.stop = .returned ∧
      (s.conns 0).map Conn.log = some [.connected, .disconnected, .message] := by
  have hstep : ∀ s a, s.enabled a = true → Step s a (s.apply a) := fun s a h => ⟨h, rfl⟩
  have h₁ : Run Step State.init [.accept (.io 0), .functor (.io 0), .poll (.io 0) [⟨0, true⟩],
      .event (.io 0), .stop, .hand (.io 0), .stopQueue, .functor (.io 0), .stopReturn] _ :=
    .of_allowed hstep (by decide)
  have h₂ : Run Step State.init [.accept .base, .poll .base [⟨0, true⟩], .event .base, .stop,
      .stopReturn] _ := .of_allowed hstep (by decide)
  have h₃ : Run Step State.init [.accept .base, .poll .base [⟨0, false⟩], .stop, .stopReturn,
      .event .base] _ := .of_allowed hstep (by decide)
  exact ⟨⟨_, _, h₁, rfl, by decide⟩, ⟨_, _, h₂, rfl, by decide⟩, ⟨_, _, h₃, rfl, by decide⟩⟩

end TinyImx.Net.TcpServer
