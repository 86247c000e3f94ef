import TinyImx.Gateway.PeerLedger

/-!
# The steps of a transport as moves of its ledger

What a table does under a key, what `NextSequence` hands out, and for each piece of code the move of
the ledger that it makes.
-/

namespace TinyImx.Gateway.PeerTransport

open Net Protocol
open Multiset (coe_add coe_eq_coe cons_add map_coe mem_add singleton_add)

variable {ρ : Type} {w : Wire ρ} {s s' : State ρ} {label : Label}

/-! ## Tables -/

namespace Table

variable {t : Table} {n : UInt32} {p : Pending}

theorem find_eq_none : t.find n = none ↔ n ∉ t.keys := by
  rw [Table.find, Option.map_eq_none_iff, List.find?_eq_none, Table.keys, List.mem_map, not_exists]
  simp_all

theorem mem_of_find (h : t.find n = some p) : (n, p) ∈ t := by
  obtain ⟨e, he, rfl⟩ := Option.map_eq_some_iff.1 h
  have hkey : e.1 = n := by simpa using List.find?_some he
  rw [← hkey]
  exact List.mem_of_find?_eq_some he

theorem emplace_of_notMem (h : n ∉ t.keys) : t.emplace n p = t ++ [(n, p)] := by
  rw [Table.emplace, find_eq_none.2 h]
  rfl

theorem perm_erase (hkeys : t.keys.Nodup) (h : (n, p) ∈ t) : t.Perm ((n, p) :: t.erase n) := by
  induction t with
  | nil => cases h
  | cons e t ih =>
    obtain ⟨hnew, hkeys⟩ := List.nodup_cons.1 hkeys
    rw [Table.erase, List.filter_cons]
    rcases List.mem_cons.1 h with rfl | h
    · have hrest : t.filter (fun e => e.1 ≠ n) = t :=
        List.filter_eq_self.2 fun e he => decide_eq_true fun heq =>
          hnew (List.mem_map.2 ⟨e, he, heq⟩)
      rw [if_neg (by simp), hrest]
    · have hne : e.1 ≠ n := fun heq => hnew (List.mem_map.2 ⟨(n, p), h, heq.symm⟩)
      rw [if_pos (by simpa using hne)]
      exact ((ih hkeys h).cons e).trans (List.Perm.swap _ _ _)

end Table

/-! ## Sequence numbers -/

variable {next : UInt32}

theorem nextSequenceLoop_free {used : UInt32 → Bool} {attempts : ℕ}
    (h : (nextSequenceLoop used attempts next).1 ≠ 0) :
    used (nextSequenceLoop used attempts next).1 = false := by
  induction attempts generalizing next with
  | zero => exact absurd rfl h
  | succ attempts ih =>
    unfold nextSequenceLoop at h ⊢
    dsimp only at h ⊢
    split at h
    · next hzero =>
      rw [if_pos hzero]
      exact ih h
    · next hzero =>
      rw [if_neg hzero]
      grind

theorem nextSequenceLoop_next {used : UInt32 → Bool} {attempts : ℕ}
    (hne : next ≠ 0) : (nextSequenceLoop used attempts next).2 ≠ 0 := by
  induction attempts generalizing next with
  | zero => exact hne
  | succ attempts ih =>
    have hnext : (if next + 1 = 0 then 1 else next + 1) ≠ 0 := by
      grind
    unfold nextSequenceLoop
    grind

def candidate (next : UInt32) (i : ℕ) : ℕ := (next.toNat - 1 + i) % maxAttempts + 1

theorem candidate_succ (hne : next ≠ 0) (i : ℕ) :
    candidate (if next + 1 = 0 then 1 else next + 1) i = candidate next (i + 1) := by
  have hlt := next.toNat_lt
  have hpos : next.toNat ≠ 0 := fun h => hne (UInt32.toNat_inj.1 h)
  have hsucc : (next + 1).toNat = (next.toNat + 1) % 2 ^ 32 := UInt32.toNat_add next 1
  unfold candidate maxAttempts
  split
  · next hwrap =>
    rw [hwrap] at hsucc
    grind
  · next hwrap =>
    have hne' : (next.toNat + 1) % 2 ^ 32 ≠ 0 := fun h => hwrap (UInt32.toNat_inj.1 (hsucc.trans h))
    have hsmall : next.toNat + 1 < 2 ^ 32 := by omega
    rw [hsucc, Nat.mod_eq_of_lt hsmall]
    have heq : next.toNat + 1 - 1 + i = next.toNat - 1 + (i + 1) := by omega
    rw [heq]

theorem nextSequenceLoop_used {used : UInt32 → Bool} {attempts : ℕ} (hne : next ≠ 0)
    (h : (nextSequenceLoop used attempts next).1 = 0) :
    ∀ i < attempts, used (UInt32.ofNat (candidate next i)) = true := by
  induction attempts generalizing next with
  | zero => exact fun i hi => absurd hi (Nat.not_lt_zero i)
  | succ attempts ih =>
    have hnext : (if next + 1 = 0 then 1 else next + 1) ≠ 0 := by
      grind
    unfold nextSequenceLoop at h
    rw [if_neg hne] at h
    split at h
    · next hused =>
      intro i hi
      cases i with
      | zero =>
        have hlt := next.toNat_lt
        have hpos : next.toNat ≠ 0 := fun h => hne (UInt32.toNat_inj.1 h)
        have hself : candidate next 0 = next.toNat := by
          unfold candidate maxAttempts
          omega
        rw [hself, UInt32.ofNat_toNat]
        exact hused
      | succ i =>
        rw [← candidate_succ hne]
        exact ih hnext h i (by omega)
    · exact absurd h hne

theorem exists_candidate {n : UInt32} (hne : next ≠ 0) (hn : n ≠ 0) :
    ∃ i < maxAttempts, UInt32.ofNat (candidate next i) = n := by
  have hlt := next.toNat_lt
  have hlt' := n.toNat_lt
  have hpos : next.toNat ≠ 0 := fun h => hne (UInt32.toNat_inj.1 h)
  have hpos' : n.toNat ≠ 0 := fun h => hn (UInt32.toNat_inj.1 h)
  have hfound : ∃ i < maxAttempts, candidate next i = n.toNat := by
    unfold candidate maxAttempts
    rcases Nat.lt_or_ge n.toNat next.toNat with hbefore | hafter
    · exact ⟨n.toNat + (2 ^ 32 - 1) - next.toNat, by omega, by omega⟩
    · exact ⟨n.toNat - next.toNat, by omega, by omega⟩
  obtain ⟨i, hi, heq⟩ := hfound
  exact ⟨i, hi, by rw [heq, UInt32.ofNat_toNat]⟩

/-! ## The ledger of a transport -/

def entry (kind : Kind) (e : UInt32 × Pending) : Entry := ⟨kind, e.1, e.2.id, e.2.timeoutTimer⟩

def Instr.submissions : Instr → List Submission
  | .failEachQueued _ _ queued => queued
  | .flushEach queued => queued
  | .forwardInLoop submission => [submission]
  | _ => []

def Instr.entries : Instr → List Entry
  | .failEachPending kind _ _ entries => entries.map (entry kind)
  | _ => []

def ids (submissions : List Submission) : Multiset ℕ := ↑(submissions.map Submission.id)

def listed (tables : Kind → Table) : Multiset Entry :=
  ↑((tables .chat).map (entry .chat)) + ↑((tables .group).map (entry .group))

def queued (queues : Kind → List Submission) : Multiset ℕ := ids (queues .chat) + ids (queues .group)

def inHand (code : List Instr) : Multiset ℕ := ids (code.flatMap Instr.submissions)

def taken (code : List Instr) : Multiset Entry := ↑(code.flatMap Instr.entries)

def State.ledger (s : State ρ) : Ledger ρ where
  waiting := inHand s.code + queued s.queues
  listed := listed s.tables
  drained := taken s.code
  timers := s.timers
  nextTimer := s.nextTimer
  nextId := s.nextId
  events := s.events

theorem inHand_cons (i : Instr) (code : List Instr) :
    inHand (i :: code) = ids i.submissions + inHand code := by
  rw [inHand, List.flatMap_cons, ids, List.map_append, ← coe_add]
  rfl

theorem taken_cons (i : Instr) (code : List Instr) :
    taken (i :: code) = ↑i.entries + taken code := by
  rw [taken, List.flatMap_cons, ← coe_add]
  rfl

theorem exists_of_mem_listed {tables : Kind → Table} {x : Entry} (h : x ∈ listed tables) :
    ∃ e ∈ tables x.kind, entry x.kind e = x := by
  rcases mem_add.1 h with h | h
  · obtain ⟨e, he, rfl⟩ := List.mem_map.1 h
    exact ⟨e, he, rfl⟩
  · obtain ⟨e, he, rfl⟩ := List.mem_map.1 h
    exact ⟨e, he, rfl⟩

theorem listed_setTable (s : State ρ) (kind : Kind) (table : Table) : ∃ others : Multiset Entry,
    listed s.tables = ↑((s.tables kind).map (entry kind)) + others ∧
      listed (s.setTable kind table).tables = ↑(table.map (entry kind)) + others := by
  cases kind with
  | chat => exact ⟨_, rfl, rfl⟩
  | group => exact ⟨↑((s.tables .chat).map (entry .chat)), add_comm _ _, add_comm _ _⟩

theorem queued_setQueue (s : State ρ) (kind : Kind) (queue : List Submission) :
    ∃ others : Multiset ℕ, queued s.queues = ids (s.queues kind) + others ∧
      queued (s.setQueue kind queue).queues = ids queue + others := by
  cases kind with
  | chat => exact ⟨_, rfl, rfl⟩
  | group => exact ⟨ids (s.queues .chat), add_comm _ _, add_comm _ _⟩

theorem keys_nodup (h : s.ledger.Inv) (kind : Kind) : (s.tables kind).keys.Nodup := by
  obtain ⟨others, hlisted, -⟩ := listed_setTable s kind []
  have hsequences := h.sequences
  change (Multiset.map Entry.sequence (listed s.tables)).Nodup at hsequences
  rw [hlisted, Multiset.map_add, Multiset.nodup_add] at hsequences
  have hmap := hsequences.1
  rw [map_coe, Multiset.coe_nodup, List.map_map] at hmap
  exact hmap

theorem listed_erase (h : s.ledger.Inv) {kind : Kind} {n : UInt32} {p : Pending}
    (hmem : (n, p) ∈ s.tables kind) : s.ledger.listed =
      entry kind (n, p) ::ₘ listed (s.setTable kind ((s.tables kind).erase n)).tables := by
  obtain ⟨others, hlisted, hrest⟩ := listed_setTable s kind ((s.tables kind).erase n)
  have hperm := (Table.perm_erase (keys_nodup h kind) hmem).map (entry kind)
  change listed s.tables = _
  rw [hlisted, hrest, coe_eq_coe.2 hperm, List.map_cons, ← Multiset.cons_coe,
    cons_add]

theorem used_eq_false {n : UInt32} (h : s.used n = false) (kind : Kind) :
    n ∉ (s.tables kind).keys := by
  obtain ⟨hchat, hgroup⟩ := Bool.or_eq_false_iff.1 h
  cases kind with
  | chat => exact Table.find_eq_none.1 (by simpa using hchat)
  | group => exact Table.find_eq_none.1 (by simpa using hgroup)

/-! ## Steps are moves -/

theorem Move.of_eq {l l' l'' : Ledger ρ} (h : Move l l') (heq : l'' = l') : Move l l'' := heq ▸ h

theorem ledger_complete (id : ℕ) (callback : Bool) (cause : Cause) (result : Result ρ) :
    (s.complete id callback cause result).ledger =
      { s.ledger with events := s.events ++ [.completed id cause result] } := by
  cases callback with
  | false => rfl
  | true =>
    refine Ledger.ext ?_ rfl ?_ rfl rfl rfl rfl
    · change inHand (.outside :: s.code) + _ = inHand s.code + _
      rw [inHand_cons]
      exact congrArg (· + queued s.queues) (zero_add _)
    · change taken (.outside :: s.code) = taken s.code
      rw [taken_cons]
      exact zero_add _

def Bare (code : List Instr) : Prop := inHand code = 0 ∧ taken code = 0

theorem inHand_append (code code' : List Instr) :
    inHand (code ++ code') = inHand code + inHand code' := by
  rw [inHand, List.flatMap_append, ids, List.map_append, ← coe_add]
  rfl

theorem taken_append (code code' : List Instr) : taken (code ++ code') = taken code + taken code' := by
  rw [taken, List.flatMap_append, ← coe_add]
  rfl

theorem ledger_push {code : List Instr} (h : Bare code) : (s.push code).ledger = s.ledger := by
  refine Ledger.ext ?_ rfl ?_ rfl rfl rfl rfl
  · change inHand (code ++ s.code) + _ = inHand s.code + _
    rw [inHand_append, h.1, zero_add]
    rfl
  · change taken (code ++ s.code) = taken s.code
    rw [taken_append, h.2, zero_add]

theorem used_takeSequence (h : s.takeSequence.1 ≠ 0) : s.used s.takeSequence.1 = false := by
  have hloop : s.takeSequence.1 = (nextSequenceLoop s.used maxAttempts s.nextSequence).1 := rfl
  rw [hloop] at h ⊢
  exact nextSequenceLoop_free h

theorem move_track {submission : Submission} {n : UInt32} {timerArmed : Bool} (hne : n ≠ 0)
    (hfree : s.used n = false) :
    Move { s.ledger with waiting := submission.id ::ₘ s.ledger.waiting }
      (s.track submission n timerArmed).ledger := by
  let kind := submission.request.kind
  let timer := if timerArmed then some s.nextTimer else none
  let pending : Pending := ⟨submission.id, submission.callback, timer⟩
  have hemplace : (s.tables kind).emplace n pending = s.tables kind ++ [(n, pending)] :=
    Table.emplace_of_notMem (used_eq_false hfree kind)
  obtain ⟨others, hlisted, hrest⟩ := listed_setTable s kind (s.tables kind ++ [(n, pending)])
  have hnew : listed (s.setTable kind (s.tables kind ++ [(n, pending)])).tables =
      entry kind (n, pending) ::ₘ listed s.tables := by
    rw [hlisted, hrest, List.map_append, ← coe_add, add_right_comm,
      ← singleton_add, add_comm]
    rfl
  have hunused : ∀ e ∈ s.ledger.listed, e.sequence ≠ (entry kind (n, pending)).sequence := by
    intro e he heq
    obtain ⟨x, hx, hxe⟩ := exists_of_mem_listed he
    refine used_eq_false hfree e.kind (List.mem_map.2 ⟨x, hx, ?_⟩)
    rw [← hxe] at heq
    exact heq
  have hmove := @Move.list ρ { s.ledger with waiting := submission.id ::ₘ s.ledger.waiting }
    s.ledger.waiting (entry kind (n, pending)) rfl hne hunused
    (if timerArmed then s.timers ++ [⟨s.nextTimer, kind, n, submission.id⟩] else s.timers)
  have htimers : (if timerArmed then s.timers ++ [⟨s.nextTimer, kind, n, submission.id⟩]
      else s.timers) = s.timers ∨ timer = some s.nextTimer ∧
      (if timerArmed then s.timers ++ [⟨s.nextTimer, kind, n, submission.id⟩] else s.timers) =
        s.timers ++ [⟨s.nextTimer, kind, n, submission.id⟩] := by
    cases timerArmed with
    | false => exact .inl rfl
    | true => exact .inr ⟨rfl, rfl⟩
  refine (hmove htimers).of_eq (Ledger.ext rfl ?_ rfl rfl rfl rfl rfl)
  change listed (s.setTable kind ((s.tables kind).emplace n pending)).tables = _
  rw [hemplace]
  exact hnew

theorem move_reject (submission : Submission) (status : Status) (text : String) :
    Move { s.ledger with waiting := submission.id ::ₘ s.ledger.waiting }
      (s.reject submission status text).ledger := by
  have hmove := @Move.reject ρ { s.ledger with waiting := submission.id ::ₘ s.ledger.waiting }
    s.ledger.waiting submission.id rfl (.failed status text)
  exact hmove.of_eq (ledger_complete _ _ _ _)

theorem move_forwardInLoop (submission : Submission) (connectionUsable timerArmed : Bool) :
    Move { s.ledger with waiting := submission.id ::ₘ s.ledger.waiting }
      (s.forwardInLoop w submission connectionUsable timerArmed).ledger := by
  unfold State.forwardInLoop
  split
  · exact move_reject _ _ _
  split
  · obtain ⟨others, hqueued, hrest⟩ := queued_setQueue s submission.request.kind
      (s.queues submission.request.kind ++ [submission])
    refine (Move.stay _).of_eq (Ledger.ext ?_ rfl rfl rfl rfl rfl rfl)
    change inHand s.code + queued _ = submission.id ::ₘ (inHand s.code + queued s.queues)
    rw [hqueued, hrest, ids, List.map_append, ← coe_add, ← singleton_add]
    change inHand s.code + (ids _ + {submission.id} + others) = _
    abel
  split
  · exact move_reject _ _ _
  dsimp only
  split
  · exact move_reject _ _ _
  next hne =>
  split
  · exact move_reject _ _ _
  · rw [ledger_push ⟨rfl, rfl⟩]
    exact @move_track ρ s.takeSequence.2 submission s.takeSequence.1 timerArmed hne (used_takeSequence hne)

theorem move_handleResponse (h : s.ledger.Inv) (kind : Kind) (packet : Packet) :
    Move s.ledger (s.handleResponse w kind packet).ledger := by
  unfold State.handleResponse
  split
  · exact .stay _
  · next pending hfind =>
    have hlisted := listed_erase h (Table.mem_of_find hfind)
    exact (Move.respond hlisted _).of_eq (ledger_complete _ _ _ _)

theorem move_handleTimeout (h : s.ledger.Inv) {timer : Timer} (hidle : s.code = [])
    (htimer : timer ∈ s.timers) : Move s.ledger (s.handleTimeout timer).ledger := by
  have hdrained : s.ledger.drained = 0 := by
    change taken s.code = 0
    rw [hidle]
    rfl
  unfold State.handleTimeout
  dsimp only
  split
  · next hfind =>
    obtain ⟨e, he, hfor⟩ := h.armed timer htimer
    rw [Ledger.held, hdrained, add_zero] at he
    obtain ⟨x, hx, hxe⟩ := exists_of_mem_listed he
    have hmissing : timer.sequence ∉ (s.tables timer.kind).keys := Table.find_eq_none.1 hfind
    have hsequence := hfor.2.2.1
    rw [← hxe] at hsequence
    rw [← hfor.2.1] at hmissing
    exact absurd (List.mem_map.2 ⟨x, hx, hsequence⟩) hmissing
  · next pending hfind =>
    have hlisted := listed_erase h (Table.mem_of_find hfind)
    exact (Move.timeout hlisted hdrained htimer rfl rfl _).of_eq (ledger_complete _ _ _ _)

theorem move_handlePacket (h : s.ledger.Inv) (packet : Packet) :
    Move s.ledger (s.handlePacket w packet).ledger := by
  unfold State.handlePacket
  split
  · exact move_handleResponse h .chat packet
  · split
    · exact move_handleResponse h .group packet
    · exact .stay _

theorem move_drain {kind : Kind} {order : Table} (horder : order.Perm (s.tables kind))
    (status : Status) (text : String) (count : ℕ) : Move s.ledger
      (({ s.setTable kind [] with pendingCount := count }).push
        [.failEachPending kind status text order]).ledger := by
  obtain ⟨others, hlisted, hrest⟩ := listed_setTable s kind []
  have horder := coe_eq_coe.2 (horder.map (entry kind))
  have hsplit : s.ledger.listed = ↑(order.map (entry kind)) + listed (s.setTable kind []).tables := by
    change listed s.tables = _
    rw [hlisted, hrest, horder, List.map_nil]
    exact congrArg _ (zero_add others).symm
  refine (Move.drain hsplit).of_eq (Ledger.ext ?_ rfl ?_ rfl rfl rfl rfl)
  · change inHand (_ :: s.code) + queued s.queues = inHand s.code + queued s.queues
    rw [inHand_cons]
    exact congrArg (· + queued s.queues) (zero_add _)
  · change taken (_ :: s.code) = ↑(order.map (entry kind)) + taken s.code
    rw [taken_cons]
    rfl

theorem move_failAllPending {kind : Kind} {order : Table} (horder : order.Perm (s.tables kind))
    (status : Status) (text : String) :
    Move s.ledger (s.failAllPending kind status text order).ledger := by
  cases kind with
  | chat =>
    unfold State.failAllPending
    dsimp only
    split
    · exact .stay _
    · exact move_drain horder status text 0
  | group => exact move_drain horder status text _

theorem ledger_takeQueue (kind : Kind) {instr : Instr} (hids : instr.submissions = s.queues kind)
    (hentries : instr.entries = []) : ((s.setQueue kind []).push [instr]).ledger = s.ledger := by
  obtain ⟨others, hqueued, hrest⟩ := queued_setQueue s kind []
  refine Ledger.ext ?_ rfl ?_ rfl rfl rfl rfl
  · change inHand (instr :: s.code) + queued (s.setQueue kind []).queues = inHand s.code + _
    rw [inHand_cons, hids, hrest, hqueued]
    change ids _ + inHand s.code + (0 + others) = _
    abel
  · change taken (instr :: s.code) = taken s.code
    rw [taken_cons, hentries]
    exact zero_add _

theorem ledger_push_singleton (instr : Instr) : (s.push [instr]).ledger = { s.ledger with
    waiting := ids instr.submissions + s.ledger.waiting
    drained := ↑instr.entries + s.ledger.drained } := by
  refine Ledger.ext ?_ rfl ?_ rfl rfl rfl rfl
  · change inHand (instr :: s.code) + queued s.queues = _ + (inHand s.code + queued s.queues)
    rw [inHand_cons, add_assoc]
  · exact taken_cons instr s.code

/-- A piece of code runs. -/
theorem move_exec {instr : Instr} (h : (s.push [instr]).ledger.Inv) {found : Found}
    (hfits : s.fits found instr) : Move (s.push [instr]).ledger (s.exec w found instr).ledger := by
  cases instr with
  | outside =>
    rw [ledger_push ⟨rfl, rfl⟩]
    exact .stay _
  | setDisconnected =>
    rw [ledger_push ⟨rfl, rfl⟩]
    exact .stay _
  | cleared =>
    rw [ledger_push ⟨rfl, rfl⟩]
    exact .stay _
  | failAllPending kind status text =>
    rw [ledger_push ⟨rfl, rfl⟩]
    exact move_failAllPending hfits status text
  | failEachPending kind status text entries =>
    cases entries with
    | nil =>
      rw [ledger_push ⟨rfl, rfl⟩]
      exact .stay _
    | cons e entries =>
      obtain ⟨n, pending⟩ := e
      rw [ledger_push_singleton]
      have hmove := @Move.fail ρ { s.ledger with
        waiting := 0 + s.ledger.waiting
        drained := entry kind (n, pending) ::ₘ (↑(entries.map (entry kind)) + s.ledger.drained) }
        (↑(entries.map (entry kind)) + s.ledger.drained) (entry kind (n, pending)) rfl
        (.failed status text)
      refine hmove.of_eq ((ledger_complete _ _ _ _).trans ?_)
      have hrest := @ledger_push_singleton ρ s (.failEachPending kind status text entries)
      have hwaiting := congrArg Ledger.waiting hrest
      have hdrained := congrArg Ledger.drained hrest
      exact Ledger.ext hwaiting rfl hdrained rfl rfl rfl rfl
  | failQueued kind status text =>
    rw [ledger_push ⟨rfl, rfl⟩]
    exact (Move.stay _).of_eq (ledger_takeQueue kind rfl rfl)
  | failEachQueued status text submissions =>
    cases submissions with
    | nil =>
      rw [ledger_push ⟨rfl, rfl⟩]
      exact .stay _
    | cons submission submissions =>
      have hmove := @move_reject ρ (s.push [.failEachQueued status text submissions]) submission
        status text
      rw [ledger_push_singleton] at hmove ⊢
      have hwaiting : ids (Instr.failEachQueued status text (submission :: submissions)).submissions +
          s.ledger.waiting = submission.id ::ₘ (ids submissions + s.ledger.waiting) :=
        cons_add submission.id (ids submissions) s.ledger.waiting
      rw [hwaiting]
      exact hmove
  | flushQueued kind =>
    rw [ledger_push ⟨rfl, rfl⟩]
    exact (Move.stay _).of_eq (ledger_takeQueue kind rfl rfl)
  | flushEach submissions =>
    cases submissions with
    | nil =>
      rw [ledger_push ⟨rfl, rfl⟩]
      exact .stay _
    | cons submission submissions =>
      refine (Move.stay _).of_eq (Ledger.ext ?_ rfl ?_ rfl rfl rfl rfl)
      · change inHand (_ :: _ :: s.code) + _ = inHand (_ :: s.code) + _
        rw [inHand_cons, inHand_cons, inHand_cons, ← add_assoc (ids _) (ids _)]
        rfl
      · change taken (_ :: _ :: s.code) = taken (_ :: s.code)
        rw [taken_cons, taken_cons, taken_cons]
        exact zero_add _
  | forwardInLoop submission =>
    have hmove := @move_forwardInLoop ρ w s submission found.connectionUsable found.timerArmed
    rw [ledger_push_singleton]
    have hwaiting : ids (Instr.forwardInLoop submission).submissions + s.ledger.waiting =
        submission.id ::ₘ s.ledger.waiting := singleton_add _ _
    have hdrained : ↑(Instr.forwardInLoop submission).entries + s.ledger.drained =
        s.ledger.drained := zero_add _
    rw [hwaiting, hdrained]
    exact hmove
  | packets packets =>
    cases packets with
    | nil =>
      rw [ledger_push ⟨rfl, rfl⟩]
      exact .stay _
    | cons packet packets =>
      have hsame : (s.push [.packets (packet :: packets)]).ledger =
          (s.push [.packets packets]).ledger :=
        (ledger_push ⟨rfl, rfl⟩).trans (ledger_push ⟨rfl, rfl⟩).symm
      rw [hsame] at h ⊢
      exact move_handlePacket h packet

theorem move_submit (request : Request) (callback : Bool) :
    Move s.ledger (s.submit request callback).ledger := by
  refine (Move.submit s.ledger).of_eq ?_
  rw [State.submit, ledger_push_singleton]
  exact Ledger.ext (singleton_add _ _) rfl (zero_add _) rfl rfl rfl rfl

theorem ledger_stopInLoop : s.stopInLoop.ledger = s.ledger := ledger_push ⟨rfl, rfl⟩

theorem ledger_handleConnection (connected : Bool) :
    (s.handleConnection connected).ledger = s.ledger := by
  cases connected with
  | false => exact ledger_push ⟨rfl, rfl⟩
  | true => exact ledger_push ⟨rfl, rfl⟩

theorem ledger_handleConnectError (text : String) : (s.handleConnectError text).ledger = s.ledger :=
  ledger_push ⟨rfl, rfl⟩

theorem ledger_handleMessage (buffer : Buffer) :
    (s.handleMessage w buffer).1.ledger = s.ledger := by
  unfold State.handleMessage
  dsimp only
  split
  · rfl
  · exact ledger_push ⟨rfl, rfl⟩
  · exact ledger_push ⟨rfl, rfl⟩

theorem stop_eq_some (h : s.stop = some s') : s.running = true ∧ s' = { s with running := false } := by
  unfold State.stop at h
  simp_all

theorem move_call (c : Call) : Move s.ledger (s.call c).ledger := by
  cases c with
  | forward request callback =>
    unfold State.call
    dsimp only
    split
    · exact move_submit request callback
    · exact .stay _
  | connection connected => exact (Move.stay _).of_eq (ledger_handleConnection connected)
  | connectError text => exact (Move.stay _).of_eq (ledger_handleConnectError text)
  | stop =>
    unfold State.call State.stop
    dsimp only
    split
    · exact (Move.stay _).of_eq ledger_stopInLoop
    · exact .stay _

theorem push_pop {instr : Instr} {code : List Instr} (h : s.code = instr :: code) :
    State.push { s with code := code } [instr] = s := by
  cases s
  cases h
  rfl

theorem Step.move (h : s.ledger.Inv) (hs : Step w s label s') : Move s.ledger s'.ledger := by
  cases hs with
  | stopElsewhere hstop =>
    obtain ⟨-, rfl⟩ := stop_eq_some hstop
    exact .stay _
  | loop event hidle hcan =>
    cases event with
    | forward request callback => exact move_submit request callback
    | message buffer => exact (Move.stay _).of_eq (ledger_handleMessage buffer)
    | timeout timer => exact move_handleTimeout h hidle hcan
    | connection connected => exact (Move.stay _).of_eq (ledger_handleConnection connected)
    | connectError text => exact (Move.stay _).of_eq (ledger_handleConnectError text)
    | stop => exact (Move.stay _).of_eq ledger_stopInLoop
  | @exec instr code found hcode hinside hfits =>
    rw [← push_pop hcode] at h
    have hmove := @move_exec ρ w { s with code := code } instr h found hfits
    rw [push_pop hcode] at hmove
    exact hmove
  | call c hcode => exact move_call c
  | @back code hcode =>
    refine (Move.stay _).of_eq (Ledger.ext ?_ rfl ?_ rfl rfl rfl rfl)
    · change inHand code + _ = inHand s.code + _
      rw [hcode, inHand_cons]
      exact congrArg (· + queued s.queues) (zero_add _).symm
    · change taken code = taken s.code
      rw [hcode, taken_cons]
      exact (zero_add _).symm

end TinyImx.Gateway.PeerTransport
