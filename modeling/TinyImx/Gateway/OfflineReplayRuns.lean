import TinyImx.Gateway.OfflineReplay
import TinyImx.Gateway.ReceiverRetryRuns

/-!
# Completeness of the persistent offline replay

Over a store that does not change, a replay visits every pending message once and in order, accounts
for each, and repairs in well-formed batches; a replay with a lease visits the one page behind its
cursor before it completes; and the replays of one session visit everything before its cursor is 0
again.
-/

namespace TinyImx.Gateway

open List (append_nil cons_append filterMap_append flatMap_cons map_cons map_nil mem_cons
  mem_filter mem_map mem_of_mem_take mem_singleton take_nil take_of_length_le take_sublist)

namespace DeliveryTracker

variable {o : Options} {s : State} {id : DeliveryIdentity} {seq : UInt32} {wireBytes : ℕ} {now : ℤ}

theorem registerAttemptLocked_alreadyConfirmed
    (h : (s.registerAttemptLocked o id seq wireBytes now).1 = .alreadyConfirmed) :
    ∃ e, s.entries.lookup id = some e ∧ e.confirmed = true := by
  unfold State.registerAttemptLocked at h
  split at h
  · grind
  · next e he =>
    grind

theorem registerAttemptLocked_ne_waitingAck :
    (s.registerAttemptLocked o id seq wireBytes now).1 ≠ .waitingAck := by
  unfold State.registerAttemptLocked
  split
  · split
    · simp
    · split <;> simp
  · split
    · simp
    · grind

theorem registerAttempt_ne_waitingAck :
    (s.registerAttempt o id seq wireBytes now).1 ≠ .waitingAck := by
  unfold State.registerAttempt
  split
  · simp
  · exact registerAttemptLocked_ne_waitingAck

theorem registerAttempt_alreadyConfirmed
    (h : (s.registerAttempt o id seq wireBytes now).1 = .alreadyConfirmed) :
    ∃ e, s.entries.lookup id = some e ∧ e.confirmed = true := by
  unfold State.registerAttempt at h
  split at h
  · cases h
  · exact registerAttemptLocked_alreadyConfirmed h

end DeliveryTracker

namespace OfflineReplay

open TinyImx.Local (Bytes MessageView PendingResult ascii)
open TinyImx.Message (PageResult listPendingAfter pendingValid takeRecords kMaxPendingPageLimit)
open DeliveryTracker (DeliveryIdentity)
open ReceiverRetry (Options accepted)

variable {c : Config} {env : ℕ → Moment} {turns : ℕ → Turn} {pending : List MessageView}

/-! ## Registrations of a submission -/

def Accounts (o : Options) (t : Moment) (id : DeliveryIdentity) : SubmitStatus → Prop
  | .submitted => ∃ wireBytes e, accepted (t.register o id wireBytes).1.status = true ∧
      (t.register o id wireBytes).2.entries.lookup id = some e ∧
      e.currentDeliverySeq = (t.register o id wireBytes).1.deliverySeq
  | .waitingAck => ∃ e, t.tracker.entries.lookup id = some e ∧ e.confirmed = false
  | .windowFull => ∃ wireBytes, (t.register o id wireBytes).1.status = .windowFull
  | .alreadyConfirmed => ∃ e, t.tracker.entries.lookup id = some e ∧ e.confirmed = true
  | .buildFailed | .encodeFailed | .trackerRejected => True
  | .connectionUnavailable => t.connected = false ∨ t.stillConnected = false

theorem register_waitingAck {o : Options} {t : DeliveryTracker.State} {id : DeliveryIdentity}
    {seq : UInt32} {wireBytes : ℕ} {now : ℤ}
    (h : (ReceiverRetry.register o t id seq wireBytes now).1.status = .waitingAck) :
    ∃ e, t.entries.lookup id = some e ∧ e.confirmed = false := by
  unfold ReceiverRetry.register at h
  split at h
  · rcases DeliveryTracker.registerReplayAttempt_cases o.tracker.clamp t id seq wireBytes now with
      ⟨e, t', -, heq⟩ | heq | ⟨status, hstatus, heq⟩
    · rw [heq] at h
      cases h
    · rw [heq] at h
      exact absurd h DeliveryTracker.registerAttemptLocked_ne_waitingAck
    · rw [heq] at h
      rcases hstatus with rfl | rfl | ⟨-, hwaiting⟩
      · cases h
      · cases h
      · exact hwaiting
  · exact absurd h DeliveryTracker.registerAttempt_ne_waitingAck

theorem register_alreadyConfirmed {o : Options} {t : DeliveryTracker.State} {id : DeliveryIdentity}
    {seq : UInt32} {wireBytes : ℕ} {now : ℤ}
    (h : (ReceiverRetry.register o t id seq wireBytes now).1.status = .alreadyConfirmed) :
    ∃ e, t.entries.lookup id = some e ∧ e.confirmed = true := by
  unfold ReceiverRetry.register at h
  split at h
  · rcases DeliveryTracker.registerReplayAttempt_cases o.tracker.clamp t id seq wireBytes now with
      ⟨e, t', -, heq⟩ | heq | ⟨status, hstatus, heq⟩
    · rw [heq] at h
      cases h
    · rw [heq] at h
      exact DeliveryTracker.registerAttemptLocked_alreadyConfirmed h
    · simp_all
  · exact DeliveryTracker.registerAttempt_alreadyConfirmed h

theorem submit_accounts (o : Options) (t : Moment) (id : DeliveryIdentity) :
    Accounts o t id (submitReceiverChatDelivery o t id) := by
  unfold submitReceiverChatDelivery
  split
  · next hconnected => exact .inl (by simpa using hconnected)
  · split
    · trivial
    · split
      · trivial
      · next wireBytes _ =>
        split
        · next hconnected => exact .inr (by simpa using hconnected)
        · dsimp only
          split
          · next hwaiting => exact register_waitingAck hwaiting
          · split
            · next hfull => exact ⟨wireBytes, hfull⟩
            · split
              · trivial
              · split
                · next hconfirmed => exact register_alreadyConfirmed hconfirmed
                · split
                  · trivial
                  · next hok =>
                    have hok : accepted (t.register o id wireBytes).1.status = true := by
                      simpa using hok
                    have hchange := ReceiverRetry.register_change o t.tracker id t.seq wireBytes t.now
                    have hregister : ReceiverRetry.register o t.tracker id t.seq wireBytes t.now =
                        t.register o id wireBytes := rfl
                    rw [hregister, if_pos hok] at hchange
                    obtain ⟨e, he, hcurrent⟩ := hchange.current_self
                    exact ⟨wireBytes, e, hok, he, hcurrent⟩

/-! ## The rows of a page -/

def repairs (visits : List (ℕ × Outcome)) : List ℕ :=
  (visits.filter fun v => v.2 = .submit .alreadyConfirmed).map Prod.fst

def visitEvents (visits : List (ℕ × Outcome)) : List Event := visits.map fun v => .visited v.1 v.2

def VisitsOf (c : Config) (env : ℕ → Moment) (rows : List MessageView)
    (visits : List (ℕ × Outcome)) : Prop :=
  List.Forall₂ (fun v m => ∃ n, v = (m.messageId, visit c (env n) m)) visits rows

variable {rows : List MessageView}

theorem VisitsOf.ids {visits : List (ℕ × Outcome)} (h : VisitsOf c env rows visits) :
    visits.map Prod.fst = rows.map MessageView.messageId := by
  induction h with
  | nil => rfl
  | cons hv _ ih =>
    grind

theorem VisitsOf.mem {visits : List (ℕ × Outcome)} {v : ℕ × Outcome}
    (h : VisitsOf c env rows visits) (hv : v ∈ visits) :
    ∃ m ∈ rows, ∃ n, v = (m.messageId, visit c (env n) m) := by
  induction h with
  | nil => cases hv
  | @cons _ m _ _ hvisit _ ih =>
    rcases mem_cons.1 hv with rfl | hv
    · exact ⟨m, List.mem_cons_self, hvisit⟩
    · obtain ⟨m', hm', hn⟩ := ih hv
      exact ⟨m', List.mem_cons_of_mem m hm', hn⟩

variable {last : ℕ}

theorem visitRows_some {n : ℕ} {repair : List ℕ} {events : List Event} {result : ℕ × List ℕ}
    (h : visitRows c env n rows last repair = (events, some result)) :
    ∃ visits, VisitsOf c env rows visits ∧ events = visitEvents visits ∧
      result.1 = ((rows.map MessageView.messageId).getLast?).getD last ∧
      result.2 = repair ++ repairs visits := by
  induction rows generalizing n last repair events with
  | nil =>
    cases h
    exact ⟨[], .nil, rfl, rfl, (append_nil repair).symm⟩
  | cons m rest ih =>
    rw [visitRows] at h
    split at h
    · cases h
    · dsimp only at h
      split at h
      · cases h
      · obtain ⟨hevents, hresult⟩ := Prod.mk.inj h
        obtain ⟨visits, hvisits, hrest, hlast, hrepair⟩ := ih (Prod.ext rfl hresult)
        refine ⟨(m.messageId, visit c (env n) m) :: visits, .cons ⟨n, rfl⟩ hvisits, ?_, ?_, ?_⟩
        · rw [← hevents]
          exact congrArg (List.cons _) hrest
        · rw [hlast, map_cons, List.getLast?_cons]
          rfl
        · rw [hrepair]
          by_cases hconfirmed : visit c (env n) m = .submit .alreadyConfirmed
          · simp [repairs, hconfirmed]
          · simp [repairs, hconfirmed]

structure Live (env : ℕ → Moment) (turns : ℕ → Turn) : Prop where
  row : ∀ n, (env n).current = true ∧ (env n).connected = true ∧ (env n).stillConnected = true
  page : ∀ p, (turns p).current = true ∧ (turns p).currentAfter = true

theorem Live.visit_ne (h : Live env turns) (n : ℕ) (m : MessageView) :
    visit c (env n) m ≠ .submit .connectionUnavailable := by
  obtain ⟨-, hconnected, hstill⟩ := h.row n
  intro hvisit
  unfold visit at hvisit
  split at hvisit
  · cases hvisit
  · have haccounts := submit_accounts c.options (env n) (identity m)
    rw [Outcome.submit.inj hvisit] at haccounts
    rcases haccounts with hno | hno
    · rw [hconnected] at hno
      cases hno
    · rw [hstill] at hno
      cases hno

theorem Live.visitRows_some (h : Live env turns) (n : ℕ) (rows : List MessageView) (last : ℕ)
    (repair : List ℕ) : ∃ events result, visitRows c env n rows last repair = (events, some result) := by
  induction rows generalizing n last repair with
  | nil => exact ⟨[], _, rfl⟩
  | cons m rest ih =>
    rw [visitRows, if_neg (by simp [(h.row n).1])]
    dsimp only
    rw [if_neg (h.visit_ne n m)]
    obtain ⟨events, result, hrest⟩ := ih (n + 1) m.messageId
      (if visit c (env n) m = .submit .alreadyConfirmed then repair ++ [m.messageId] else repair)
    exact ⟨_, result, by rw [hrest]⟩

/-! ## Pages -/

def above (pending : List MessageView) (after : ℕ) : List MessageView :=
  pending.filter fun m => after < m.messageId

structure Lists (c : Config) (pending : List MessageView) : Prop where
  user : c.user ≠ 0
  ascending : pending.Pairwise fun m m' => m.messageId < m'.messageId
  row : ∀ m ∈ pending, 0 < m.messageId ∧ m.messageId < 2 ^ 64 ∧ m.toUserId = c.user ∧
    m.deliveryState = .pending
  page : ∀ after < 2 ^ 64, c.find c.user after kPendingReplayPageSize =
    { status := .succeeded, records := (above pending after).take kPendingReplayPageSize }

theorem takeRecords_ok {records : List MessageView} {pageBytes take taken : ℕ}
    (h : takeRecords records pageBytes take = .ok taken) :
    take ≤ taken ∧ (take = 0 → records ≠ [] → 0 < taken) := by
  induction records generalizing pageBytes take with
  | nil =>
    cases h
    exact ⟨le_rfl, fun _ hne => absurd rfl hne⟩
  | cons m rest ih =>
    rw [takeRecords] at h
    split at h
    · split at h
      · split at h
        · cases h
        · next hne =>
          cases h
          exact ⟨le_rfl, fun hzero => absurd hzero hne⟩
      · have hle := (ih h).1
        exact ⟨by omega, fun _ _ => by omega⟩
    · split at h
      · cases h
      · next hne =>
        cases h
        exact ⟨le_rfl, fun hzero => absurd hzero hne⟩

theorem takeRecords_error {records : List MessageView} {pageBytes take : ℕ} {e : Local.Failure}
    (h : takeRecords records pageBytes take = .error e) : e.status = .invalidRecord := by
  induction records generalizing pageBytes take with
  | nil => cases h
  | cons m rest ih =>
    rw [takeRecords] at h
    split at h
    · split at h
      · grind
      · exact ih h
    · split at h
      · cases h
        rfl
      · cases h

variable {after : ℕ}

/-- A page is a first part of what is behind its cursor, not empty unless it is the last, and all of
it if it says that there is no more. -/
theorem Lists.rpc (h : Lists c pending) {turn : Turn} {page : PageResult MessageView}
    (hafter : after < 2 ^ 64) (hp : listPendingAfterRpc c turn after = some page) :
    ∃ k, page.messages = (above pending after).take k ∧ page.messages.length ≤ 100 ∧
      (page.hasMore = false → (above pending after).length ≤ k) ∧
      (page.messages = [] → page.hasMore = false) := by
  unfold listPendingAfterRpc at hp
  dsimp only at hp
  split at hp
  · cases hp
  · next hok =>
    simp only [Bool.or_eq_true, not_or, decide_eq_true_eq, not_not] at hok
    obtain ⟨⟨⟨-, hstatus⟩, hlength⟩, -⟩ := hok
    cases hp
    have hargs : ¬ (c.user = 0 || kPendingReplayPageSize = 0 ||
        kMaxPendingPageLimit < kPendingReplayPageSize : Bool) = true := by
      simp [h.user, kPendingReplayPageSize, kMaxPendingPageLimit]
    unfold listPendingAfter at hstatus hlength ⊢
    rw [if_neg hargs] at hstatus hlength ⊢
    dsimp only at hstatus hlength ⊢
    rw [h.page after hafter] at hstatus hlength ⊢
    dsimp only at hstatus hlength ⊢
    rw [if_neg (by simp)] at hstatus hlength ⊢
    have hrecords : ((above pending after).take kPendingReplayPageSize).length =
        min kPendingReplayPageSize (above pending after).length := List.length_take
    rw [if_neg (by omega)] at hstatus hlength ⊢
    split at hstatus
    · cases hstatus
    · next hvalid =>
      rw [if_neg hvalid] at hlength ⊢
      split at hstatus
      · next e he =>
        rw [takeRecords_error he] at hstatus
        cases hstatus
      · next taken htaken =>
        rw [htaken] at hlength
        refine ⟨min taken kPendingReplayPageSize, List.take_take, not_lt.1 hlength, ?_, ?_⟩
        · grind
        · intro hnil
          by_cases hrows : (above pending after).take kPendingReplayPageSize = []
          · grind
          · have hpos := (takeRecords_ok htaken).2 rfl hrows
            simp_all

/-! ## The loop -/

structure PageLog where
  after : ℕ
  visits : List (ℕ × Outcome)
  completed : Option (ℕ × Bool)

def PageLog.events (p : PageLog) : List Event :=
  .listed p.after :: visitEvents p.visits ++
    (if repairs p.visits = [] then [] else [.repaired (repairs p.visits)]) ++
    p.completed.toList.map fun done => .completed done.1 done.2

def PageLog.ids (p : PageLog) : List ℕ := p.visits.map Prod.fst

theorem filterMap_visitEvents (visits : List (ℕ × Outcome)) :
    (visitEvents visits).filterMap Event.visitedId = visits.map Prod.fst := by
  induction visits with
  | nil => rfl
  | cons v visits ih =>
    rw [map_cons, ← ih]
    rfl

theorem visitedIds_events (p : PageLog) : visitedIds p.events = p.ids := by
  unfold visitedIds PageLog.events PageLog.ids
  rw [cons_append, cons_append, List.filterMap_cons_none rfl, filterMap_append,
    filterMap_append, filterMap_visitEvents]
  have hrepair : (if repairs p.visits = [] then [] else
      [Event.repaired (repairs p.visits)]).filterMap Event.visitedId = [] := by
    split <;> rfl
  have hdone : (p.completed.toList.map fun done => Event.completed done.1 done.2).filterMap
      Event.visitedId = [] := by
    cases p.completed <;> rfl
  rw [hrepair, hdone, append_nil, append_nil]

theorem visitedIds_flatMap (pages : List PageLog) :
    visitedIds (pages.flatMap PageLog.events) = pages.flatMap PageLog.ids := by
  induction pages with
  | nil => rfl
  | cons p pages ih =>
    rw [flatMap_cons, flatMap_cons, visitedIds, filterMap_append, ← ih,
      ← visitedIds_events]
    rfl

def PageLog.Ok (c : Config) (env : ℕ → Moment) (pending : List MessageView) (p : PageLog) : Prop :=
  ∃ k rows, rows = (above pending p.after).take k ∧ rows.length ≤ 100 ∧ VisitsOf c env rows p.visits

theorem getLast?_above {k : ℕ} {m : MessageView}
    (h : ((above pending after).take k).getLast? = some m) : m ∈ pending ∧ after < m.messageId := by
  have hmem := mem_filter.1 (mem_of_mem_take (List.mem_of_getLast? h))
  exact ⟨hmem.1, by simpa using hmem.2⟩

theorem Lists.above_last (h : Lists c pending) {k : ℕ} {m : MessageView}
    (hm : ((above pending after).take k).getLast? = some m) :
    above pending m.messageId = (above pending after).drop k :=
  Paging.above_cut h.ascending hm

theorem replayPages_rows {recovery : Bool} {fuel pageIndex n after last : ℕ} {repair : List ℕ}
    {events : List Event} {page : PageResult MessageView}
    (hindex : (recovery && 1 ≤ pageIndex : Bool) = false) (hcurrent : (turns pageIndex).current = true)
    (hpage : listPendingAfterRpc c (turns pageIndex) after = some page) (hrows : page.messages ≠ [])
    (hvisit : visitRows c env n page.messages after [] = (events, some (last, repair)))
    (hlast : after < last) :
    replayPages c env turns recovery (fuel + 1) pageIndex n after =
      if page.hasMore then
        (replayPages c env turns recovery fuel (pageIndex + 1) (n + page.messages.length) last).map
          fun rest => (.listed after :: events ++
            pageEvents (turns pageIndex) recovery last repair page.hasMore ++ rest.1, rest.2)
      else some (.listed after :: events ++
        pageEvents (turns pageIndex) recovery last repair page.hasMore, .finished) := by
  rw [replayPages, if_neg (by simp [hindex]), if_neg (by simp [hcurrent]), hpage]
  dsimp only
  rw [if_neg hrows, hvisit]
  grind

theorem replayPages_empty {recovery : Bool} {fuel pageIndex n : ℕ}
    {page : PageResult MessageView} (hindex : (recovery && 1 ≤ pageIndex : Bool) = false)
    (hcurrent : (turns pageIndex).current = true)
    (hpage : listPendingAfterRpc c (turns pageIndex) after = some page) (hrows : page.messages = []) :
    replayPages c env turns recovery (fuel + 1) pageIndex n after =
      some (.listed after :: if recovery then [.completed 0 false] else [], .finished) := by
  rw [replayPages, if_neg (by simp [hindex]), if_neg (by simp [hcurrent]), hpage]
  dsimp only
  rw [if_pos hrows]

theorem Lists.page_log (h : Lists c pending) {turn : Turn} {n : ℕ} {repair : List ℕ}
    {events : List Event} {page : PageResult MessageView} (hafter : after < 2 ^ 64)
    (hpage : listPendingAfterRpc c turn after = some page) (hrows : page.messages ≠ [])
    (hvisit : visitRows c env n page.messages after [] = (events, some (last, repair))) :
    ∃ visits m k, page.messages = (above pending after).take k ∧ page.messages.length ≤ 100 ∧
      (page.hasMore = false → (above pending after).length ≤ k) ∧ VisitsOf c env page.messages visits ∧
      events = visitEvents visits ∧ repair = repairs visits ∧
      ((above pending after).take k).getLast? = some m ∧ m.messageId = last := by
  obtain ⟨k, hmessages, hlength, hmore, -⟩ := h.rpc hafter hpage
  obtain ⟨visits, hvisits, hevents, hlast, hrepair⟩ := visitRows_some hvisit
  have hsome := List.getLast?_eq_some_getLast hrows
  refine ⟨visits, page.messages.getLast hrows, k, hmessages, hlength, hmore, hvisits, hevents,
    by simpa using hrepair, by rw [← hmessages, hsome], ?_⟩
  rw [List.getLast?_map, hsome] at hlast
  exact hlast.symm

theorem pageEvents_log (turn : Turn) (recovery : Bool) (after last : ℕ)
    (visits : List (ℕ × Outcome)) (hasMore : Bool) :
    .listed after :: visitEvents visits ++ pageEvents turn recovery last (repairs visits) hasMore =
      PageLog.events ⟨after, visits,
        if recovery && turn.currentAfter then some (last, hasMore) else none⟩ := by
  unfold PageLog.events pageEvents
  rw [← List.append_assoc]
  congr 1
  split <;> rfl

/-- Without a lease the loop ends and visits everything behind its cursor. -/
theorem Lists.visits_all (h : Lists c pending) (hlive : Live env turns)
    (hrpc : ∀ p, ∀ after < 2 ^ 64, listPendingAfterRpc c (turns p) after ≠ none)
    (hafter : after < 2 ^ 64) (p n : ℕ) :
    ∃ (fuel : ℕ) (pages : List PageLog), (∀ fuel' ≥ fuel,
        replayPages c env turns false fuel' p n after =
          some (pages.flatMap PageLog.events, .finished)) ∧
      (∀ q ∈ pages, q.Ok c env pending ∧ q.completed = none) ∧
      pages.flatMap PageLog.ids = (above pending after).map MessageView.messageId := by
  induction hlen : (above pending after).length using Nat.strongRecOn generalizing after p n with
  | ind len ih =>
    obtain ⟨page, hpage⟩ := Option.ne_none_iff_exists'.1 (hrpc p after hafter)
    have hcurrent := (hlive.page p).1
    by_cases hrows : page.messages = []
    · obtain ⟨k, hmessages, -, hall, hnil⟩ := h.rpc hafter hpage
      have hempty : above pending after = [] := by
        rw [← take_of_length_le (hall (hnil hrows)), ← hmessages, hrows]
      refine ⟨1, [⟨after, [], none⟩], fun fuel' hfuel => ?_, ?_, ?_⟩
      · obtain ⟨fuel, rfl⟩ := Nat.exists_eq_add_of_le' hfuel
        exact replayPages_empty (by simp) hcurrent hpage hrows
      · intro q hq
        rw [mem_singleton.1 hq]
        exact ⟨⟨k, [], by rw [hempty, take_nil], by simp, .nil⟩, rfl⟩
      · rw [hempty]
        rfl
    · obtain ⟨events, ⟨last, repair⟩, hvisit⟩ := hlive.visitRows_some (c := c) n page.messages after []
      obtain ⟨visits, m, k, hmessages, hlength, hall, hvisits, rfl, rfl, hlast, rfl⟩ :=
        h.page_log hafter hpage hrows hvisit
      obtain ⟨hm, hlt⟩ := getLast?_above hlast
      have hok : PageLog.Ok c env pending ⟨after, visits, none⟩ :=
        ⟨k, page.messages, hmessages, hlength, hvisits⟩
      have hids : PageLog.ids ⟨after, visits, none⟩ =
          ((above pending after).take k).map MessageView.messageId := by
        rw [← hmessages]
        exact hvisits.ids
      have hturn : ∀ fuel, _ := fun fuel =>
        @replayPages_rows c env turns false fuel p n after _ _ _ page rfl hcurrent hpage hrows hvisit hlt
      rw [pageEvents_log] at hturn
      cases hmore : page.hasMore with
      | false =>
        refine ⟨1, [⟨after, visits, none⟩], fun fuel' hfuel => ?_, ?_, ?_⟩
        · obtain ⟨fuel, rfl⟩ := Nat.exists_eq_add_of_le' hfuel
          rw [hturn fuel, hmore, if_neg (by simp)]
          simp
        · intro q hq
          rw [mem_singleton.1 hq]
          exact ⟨hok, rfl⟩
        · rw [List.flatMap_singleton, hids, take_of_length_le (hall hmore)]
      | true =>
        have hdrop := h.above_last hlast
        have hshort : (above pending m.messageId).length < len := by
          rw [hdrop, List.length_drop, ← hlen]
          have hpos : 0 < page.messages.length := List.length_pos_iff.2 hrows
          rw [hmessages, List.length_take] at hpos
          omega
        obtain ⟨fuel, pages, hrun, hpages, hrest⟩ :=
          ih _ hshort (h.row m hm).2.1 (p + 1) (n + page.messages.length) rfl
        refine ⟨fuel + 1, ⟨after, visits, none⟩ :: pages, fun fuel' hfuel => ?_, ?_, ?_⟩
        · obtain ⟨fuel₁, rfl⟩ := Nat.exists_eq_add_of_le' (Nat.le_of_add_left_le hfuel)
          rw [hturn fuel₁, hmore, if_pos rfl, hrun fuel₁ (Nat.le_of_succ_le_succ hfuel)]
          simp
        · intro q hq
          rcases mem_cons.1 hq with rfl | hq
          · exact ⟨hok, rfl⟩
          · exact hpages q hq
        · rw [flatMap_cons, hids, hrest, hdrop, ← List.map_append, List.take_append_drop]

/-! ## One page with a lease -/

theorem visited_of_mem_visitRows {n : ℕ} {repair : List ℕ} {e : Event}
    (h : e ∈ (visitRows c env n rows last repair).1) : ∃ id outcome, e = .visited id outcome := by
  induction rows generalizing n last repair with
  | nil => cases h
  | cons m rest ih =>
    rw [visitRows] at h
    split at h
    · cases h
    · dsimp only at h
      split at h
      · exact ⟨_, _, mem_singleton.1 h⟩
      · grind

theorem PageLog.completed_of_mem {q : PageLog} {hasMore : Bool}
    (h : .completed last hasMore ∈ q.events) : q.completed = some (last, hasMore) := by
  unfold PageLog.events at h
  simp only [cons_append, mem_cons, List.mem_append, reduceCtorEq, false_or] at h
  rcases h with (h | h) | h
  · obtain ⟨v, -, hv⟩ := mem_map.1 h
    cases hv
  · simp_all
  · simp_all

theorem replayPages_second {fuel n : ℕ} {result : List Event × End}
    (h : replayPages c env turns true fuel 1 n after = some result) : result = ([], .finished) := by
  cases fuel with
  | zero => cases h
  | succ fuel =>
    rw [replayPages, if_pos (by simp)] at h
    cases h
    rfl

/-- What a completed lease says: the rows of the page behind its cursor were visited before. -/
structure Completion (c : Config) (env : ℕ → Moment) (pending : List MessageView) (cursor last : ℕ)
    (hasMore : Bool) (q : PageLog) : Prop where
  after : q.after = cursor
  completed : q.completed = some (last, hasMore)
  ok : q.Ok c env pending
  page : ∃ k, q.ids = ((above pending cursor).take k).map MessageView.messageId ∧
    (hasMore = false → (above pending cursor).length ≤ k) ∧
    (hasMore = true → ∃ m, ((above pending cursor).take k).getLast? = some m ∧ m.messageId = last)

theorem Lists.recovery (h : Lists c pending) {fuel cursor : ℕ} {hasMore : Bool}
    {events : List Event} {ending : End} (hcursor : cursor < 2 ^ 64)
    (hrun : replayPages c env turns true fuel 0 0 cursor = some (events, ending))
    (hmem : .completed last hasMore ∈ events) :
    ∃ q, events = q.events ∧ Completion c env pending cursor last hasMore q := by
  cases fuel with
  | zero => cases hrun
  | succ fuel =>
    by_cases hcurrent : (turns 0).current = true
    · cases hpage : listPendingAfterRpc c (turns 0) cursor with
      | none =>
        rw [replayPages, if_neg (by simp), if_neg (by simp [hcurrent]), hpage] at hrun
        cases hrun
        cases mem_singleton.1 hmem
      | some page =>
        by_cases hrows : page.messages = []
        · rw [replayPages_empty rfl hcurrent hpage hrows, if_pos rfl] at hrun
          cases hrun
          rcases mem_cons.1 hmem with heq | hmem
          · cases heq
          · cases mem_singleton.1 hmem
            obtain ⟨k, hmessages, -, hall, hnil⟩ := h.rpc hcursor hpage
            have hlength := hall (hnil hrows)
            have hempty : above pending cursor = [] := by
              rw [← take_of_length_le hlength, ← hmessages, hrows]
            refine ⟨⟨cursor, [], some (0, false)⟩, rfl, rfl, rfl, ⟨k, [], ?_, by simp, .nil⟩,
              k, ?_, fun _ => hlength, fun hno => by cases hno⟩
            · rw [hempty, take_nil]
            · rw [hempty, take_nil]
              rfl
        · cases hvisit : visitRows c env 0 page.messages cursor [] with
          | mk visited result =>
            cases result with
            | none =>
              rw [replayPages, if_neg (by simp), if_neg (by simp [hcurrent]),
                hpage] at hrun
              dsimp only at hrun
              rw [if_neg hrows, hvisit] at hrun
              cases hrun
              rcases mem_cons.1 hmem with heq | hmem
              · cases heq
              · have hmem : .completed last hasMore ∈
                    (visitRows c env 0 page.messages cursor []).1 := by
                  rw [hvisit]
                  exact hmem
                obtain ⟨id, outcome, heq⟩ := visited_of_mem_visitRows hmem
                cases heq
            | some result =>
              obtain ⟨last', repair⟩ := result
              obtain ⟨visits, m, k, hmessages, hlength, hall, hvisits, rfl, rfl, hlast, rfl⟩ :=
                h.page_log hcursor hpage hrows hvisit
              rw [replayPages_rows rfl hcurrent hpage hrows hvisit (getLast?_above hlast).2,
                pageEvents_log] at hrun
              have hevents : events = PageLog.events ⟨cursor, visits,
                  if true && (turns 0).currentAfter then some (m.messageId, page.hasMore)
                  else none⟩ := by
                split at hrun
                · obtain ⟨rest, hrest, heq⟩ := Option.map_eq_some_iff.1 hrun
                  rw [replayPages_second hrest, append_nil] at heq
                  exact (Prod.mk.inj heq).1.symm
                · exact (Prod.mk.inj (Option.some.inj hrun)).1.symm
              rw [hevents] at hmem
              have hdone := PageLog.completed_of_mem hmem
              refine ⟨_, hevents, rfl, hdone, ⟨k, page.messages, hmessages, hlength, hvisits⟩, k,
                ?_, ?_, ?_⟩
              · rw [← hmessages]
                exact hvisits.ids
              · split at hdone
                · obtain ⟨-, rfl⟩ := Prod.mk.inj (Option.some.inj hdone)
                  exact hall
                · cases hdone
              · intro _
                dsimp only at hdone
                grind
    · rw [replayPages, if_neg (by simp), if_pos (by simp [hcurrent])] at hrun
      cases hrun
      cases hmem

theorem Lists.recovery_live (h : Lists c pending) (hlive : Live env turns)
    (hrpc : ∀ p, ∀ after < 2 ^ 64, listPendingAfterRpc c (turns p) after ≠ none) {cursor : ℕ}
    (hcursor : cursor < 2 ^ 64) : ∃ events last hasMore, (∀ fuel ≥ 2,
      replayPages c env turns true fuel 0 0 cursor = some (events, .finished)) ∧
      .completed last hasMore ∈ events := by
  obtain ⟨page, hpage⟩ := Option.ne_none_iff_exists'.1 (hrpc 0 cursor hcursor)
  obtain ⟨hcurrent, hafter⟩ := hlive.page 0
  by_cases hrows : page.messages = []
  · refine ⟨[.listed cursor, .completed 0 false], 0, false, fun fuel hfuel => ?_, by simp⟩
    obtain ⟨fuel₁, rfl⟩ := Nat.exists_eq_add_of_le' hfuel
    exact replayPages_empty rfl hcurrent hpage hrows
  · obtain ⟨events, ⟨last, repair⟩, hvisit⟩ := hlive.visitRows_some (c := c) 0 page.messages cursor []
    obtain ⟨visits, m, k, -, -, -, -, -, -, hlast, rfl⟩ := h.page_log hcursor hpage hrows hvisit
    refine ⟨.listed cursor :: events ++ pageEvents (turns 0) true m.messageId repair page.hasMore,
      m.messageId, page.hasMore, fun fuel hfuel => ?_, ?_⟩
    · obtain ⟨fuel₁, rfl⟩ := Nat.exists_eq_add_of_le' hfuel
      rw [replayPages_rows rfl hcurrent hpage hrows hvisit (getLast?_above hlast).2]
      split
      · rw [replayPages, if_pos (by simp)]
        simp
      · rfl
    · simp [pageEvents, hafter]

/-! ## Chains of attempts -/

section Chains

open Recovery (ReplayAttempt)

variable {o : Recovery.Options} {s s' : Recovery.State} {l : Label} {ls : List Label}

theorem Step.recovery (hs : Step c o s l s') : ∃ l', Recovery.Step o s l' s' := by
  cases hs with
  | call hs => exact ⟨_, hs⟩
  | replayed env turns fuel events ending last hasMore ha => exact ⟨_, .replayComplete last hasMore ha⟩

def CursorsAgree (s : Recovery.State) : Prop :=
  ∀ k ∈ s.replays.map ReplayAttempt.key, ∀ r, s.core.sessions.lookup k.1 = some r →
    r.generation = k.2.2.1 → r.active = true → r.cursor = k.2.2.2

theorem CursorsAgree.step {l' : Recovery.Label} (hsound : Recovery.Sound s) (h : CursorsAgree s)
    (hs : Recovery.Step o s l' s') : CursorsAgree s' := by
  have hold : ∀ k ∈ s.replays.map ReplayAttempt.key, ∀ r,
      s'.core.sessions.lookup k.1 = some r → r.generation = k.2.2.1 → r.active = true →
        r.cursor = k.2.2.2 := by
    intro k hk r hr hgeneration hactive
    have hle := (hsound.replayLe k hk).2.1
    have hmove := Recovery.step_session hs k.1
    obtain ⟨x, hx⟩ : ∃ x, s.core.sessions.lookup k.1 = x := ⟨_, rfl⟩
    rw [hr, hx] at hmove
    cases hmove with
    | keep => exact h k hk r hx hgeneration hactive
    | release => cases hactive
    | complete => cases hactive
    | supersede => cases hactive
    | renew =>
      dsimp only at hgeneration
      omega
    | begin =>
      dsimp only at hgeneration
      omega
  intro k hk r hr hgeneration hactive
  rcases Recovery.step_replays hs with ⟨-, hkeys⟩ | ⟨u, r', -, -, hkeys, hr', -⟩
  · rw [hkeys] at hk
    exact hold k hk r hr hgeneration hactive
  · rw [hkeys] at hk
    rcases List.mem_append.1 hk with hk | hk
    · exact hold k hk r hr hgeneration hactive
    · rw [mem_singleton.1 hk] at hr ⊢
      dsimp only at hr ⊢
      rw [hr'] at hr
      cases hr
      rfl

def Label.page (epoch : ℕ) : Label → Option (List ℕ)
  | .replayed epoch' _ visited _ hasMore done =>
    if epoch' = epoch ∧ hasMore = true ∧ done = true then some visited else none
  | _ => none

def upTo (pending : List MessageView) (cursor : ℕ) : List ℕ :=
  (pending.filter fun m => m.messageId ≤ cursor).map MessageView.messageId

theorem upTo_append_above {l : List MessageView}
    (h : l.Pairwise fun m m' => m.messageId < m'.messageId) (cursor : ℕ) :
    upTo l cursor ++ (above l cursor).map MessageView.messageId = l.map MessageView.messageId := by
  induction l with
  | nil => rfl
  | cons m rest ih =>
    rw [List.pairwise_cons] at h
    have hrest := ih h.2
    unfold upTo above at hrest ⊢
    by_cases hm : m.messageId ≤ cursor
    · rw [List.filter_cons_of_pos (by simpa using hm), List.filter_cons_of_neg (by simpa using hm),
        map_cons, cons_append, hrest]
      rfl
    · have hnone : rest.filter (fun m => m.messageId ≤ cursor) = [] := by
        refine List.filter_eq_nil_iff.2 fun m' hm' => ?_
        have := h.1 m' hm'
        rw [decide_eq_true_eq]
        omega
      rw [hnone, map_nil, List.nil_append] at hrest
      rw [List.filter_cons_of_neg (by simpa using hm), List.filter_cons_of_pos (by simpa using hm),
        hnone, map_cons, hrest]
      rfl

theorem Lists.upTo_last (h : Lists c pending) {cursor k : ℕ} {m : MessageView}
    (hm : ((above pending cursor).take k).getLast? = some m) :
    upTo pending m.messageId =
      upTo pending cursor ++ ((above pending cursor).take k).map MessageView.messageId := by
  have hcursor := upTo_append_above h.ascending cursor
  have hlast := upTo_append_above h.ascending m.messageId
  rw [← hcursor, h.above_last hm] at hlast
  rw [← List.take_append_drop k (above pending cursor), List.map_append, ← List.append_assoc] at hlast
  simp only [List.take_append_drop] at hlast
  exact List.append_cancel_right hlast

theorem Lists.upTo_zero (h : Lists c pending) : upTo pending 0 = [] := by
  unfold upTo
  rw [List.filter_eq_nil_iff.2, map_nil]
  intro m hm
  have := (h.row m hm).1
  rw [decide_eq_true_eq]
  omega

def Covered (c : Config) (pending : List MessageView) (ls : List Label) (s : Recovery.State) : Prop :=
  ∀ r, s.core.sessions.lookup c.user = some r → r.cursor < 2 ^ 64 ∧
    ∃ chain : List (List ℕ), chain.Sublist (ls.filterMap (Label.page r.epoch)) ∧
      chain.flatten = upTo pending r.cursor

theorem Covered.same (hc : Covered c pending ls s) {r r' : Recovery.ReplayState}
    (hr : s.core.sessions.lookup c.user = some r) (hepoch : r'.epoch = r.epoch)
    (hcursor : r'.cursor = r.cursor) (l : Label) :
    r'.cursor < 2 ^ 64 ∧ ∃ chain : List (List ℕ),
      chain.Sublist ((ls ++ [l]).filterMap (Label.page r'.epoch)) ∧
        chain.flatten = upTo pending r'.cursor := by
  obtain ⟨hlt, chain, hchain, hall⟩ := hc r hr
  rw [hepoch, hcursor, filterMap_append]
  exact ⟨hlt, chain, hchain.trans (List.sublist_append_left _ _), hall⟩

theorem Lists.fresh (h : Lists c pending) {r' : Recovery.ReplayState} (hcursor : r'.cursor = 0)
    (ls : List Label) :
    r'.cursor < 2 ^ 64 ∧ ∃ chain : List (List ℕ), chain.Sublist (ls.filterMap (Label.page r'.epoch)) ∧
      chain.flatten = upTo pending r'.cursor := by
  rw [hcursor, h.upTo_zero]
  exact ⟨by decide, [], List.nil_sublist _, rfl⟩

theorem Lists.completes (h : Lists c pending) (hagree : CursorsAgree s) (hc : Covered c pending ls s)
    {i : ℕ} {a : ReplayAttempt} {r : Recovery.ReplayState} {fuel : ℕ} {events : List Event}
    {ending : End} {hasMore : Bool} (ha : s.replays[i]? = some a) (huser : a.user = c.user)
    (hcurrent : a.Current s.core r)
    (hrun : executePersistentOfflineReplay c env turns (some a.cursor) fuel = some (events, ending))
    (hmem : .completed last hasMore ∈ events) :
    ∃ (chain : List (List ℕ)) (k : ℕ), chain.Sublist (ls.filterMap (Label.page a.epoch)) ∧
      chain.flatten = upTo pending a.cursor ∧
      visitedIds events = ((above pending a.cursor).take k).map MessageView.messageId ∧
      (hasMore = false → (above pending a.cursor).length ≤ k) ∧
      (hasMore = true → ∃ m, ((above pending a.cursor).take k).getLast? = some m ∧
        m.messageId = last) := by
  obtain ⟨-, -, hr, hepoch, hgeneration, hactive⟩ := hcurrent
  have hcursor : r.cursor = a.cursor :=
    hagree a.key (List.mem_map_of_mem (List.mem_of_getElem? ha)) r hr hgeneration hactive
  rw [huser] at hr
  obtain ⟨hlt, chain, hchain, hall⟩ := hc r hr
  rw [hepoch] at hchain
  rw [hcursor] at hlt hall
  unfold executePersistentOfflineReplay at hrun
  rw [if_neg h.user] at hrun
  obtain ⟨q, rfl, hq⟩ := h.recovery hlt hrun hmem
  obtain ⟨k, hids, hlast, hmore⟩ := hq.page
  exact ⟨chain, k, hchain, hall, by rw [visitedIds_events, hids], hlast, hmore⟩

theorem Step.covered (h : Lists c pending) (hagree : CursorsAgree s) (hc : Covered c pending ls s)
    (hs : Step c o s l s') : Covered c pending (ls ++ [l]) s' := by
  intro r' hr'
  cases hs with
  | @call _ l' hs hno =>
    have hmove := Recovery.step_session hs c.user
    obtain ⟨x, hx⟩ : ∃ x, s.core.sessions.lookup c.user = x := ⟨_, rfl⟩
    rw [hr', hx] at hmove
    cases hmove with
    | keep => exact hc.same hx rfl rfl _
    | release r => exact hc.same hx rfl rfl _
    | complete r a i last hasMore hl ha huser => exact absurd huser (hno i last hasMore a hl ha)
    | supersede => exact h.fresh rfl _
    | renew r => exact hc.same hx rfl rfl _
    | begin => exact h.fresh rfl _
  | @replayed i a env turns fuel events ending last hasMore ha huser hrun hmem =>
    rcases Recovery.replay_complete_cases a last hasMore s.core with heq | ⟨r, hcurrent, -, heq⟩
    · simp only [Recovery.State.replayComplete, heq] at hr'
      exact hc.same hr' rfl rfl _
    · obtain ⟨chain, k, hchain, hall, hvisited, hlast, hmore⟩ :=
        h.completes hagree hc ha huser hcurrent hrun hmem
      simp only [Recovery.State.replayComplete, heq, Recovery.finishLocked_lookup, huser,
        if_true, Option.some.injEq] at hr'
      subst hr'
      cases hasMore with
      | false => exact h.fresh rfl _
      | true =>
        obtain ⟨m, hm, rfl⟩ := hmore rfl
        refine ⟨(h.row m (getLast?_above hm).1).2.1, chain ++ [visitedIds events], ?_, ?_⟩
        · rw [hcurrent.2.2.2.1, heq, filterMap_append]
          refine hchain.append ?_
          simp [Label.page]
        · rw [List.flatten_append, hall, hvisited]
          simpa using (h.upTo_last hm).symm

theorem invariants_of_run (h : Lists c pending) (hrun : Run (Step c o) Recovery.start ls s) :
    CursorsAgree s ∧ Covered c pending ls s := by
  suffices hall : Recovery.Sound s ∧ CursorsAgree s ∧ Covered c pending ls s from hall.2
  refine hrun.history
    (I := fun ls s => Recovery.Sound s ∧ CursorsAgree s ∧ Covered c pending ls s) ?_ ?_
  · intro ls s l s' hinv hs
    obtain ⟨l', hs'⟩ := hs.recovery
    exact ⟨hinv.1.step hs', hinv.2.1.step hinv.1 hs', hs.covered h hinv.2.1 hinv.2.2⟩
  · refine ⟨.start, ?_, ?_⟩
    · intro k hk
      cases hk
    · intro r hr
      cases hr

theorem chain_complete (h : Lists c pending) {pre post : List Label} {epoch cursor : ℕ}
    {visited : List ℕ} (hrun : Run (Step c o) Recovery.start
      (pre ++ .replayed epoch cursor visited last false true :: post) s) :
    ∃ chain : List (List ℕ), chain.Sublist (pre.filterMap (Label.page epoch)) ∧
      chain.flatten ++ visited = pending.map MessageView.messageId := by
  obtain ⟨t, t', hpre, hs, -⟩ := hrun.exists_step
  obtain ⟨hagree, hc⟩ := invariants_of_run h hpre
  generalize hl : Label.replayed epoch cursor visited last false true = l at hs
  cases hs with
  | call => cases hl
  | @replayed i a env turns fuel events ending last' hasMore ha huser hreplay hmem =>
    obtain ⟨rfl, rfl, rfl, rfl, rfl, hdone⟩ := Label.replayed.inj hl
    rcases Recovery.replay_complete_cases a last false t.core with heq | ⟨r, hcurrent, -, heq⟩
    · rw [heq] at hdone
      cases hdone
    · obtain ⟨chain, k, hchain, hall, hvisited, hlast, -⟩ :=
        h.completes hagree hc ha huser hcurrent hreplay hmem
      refine ⟨chain, hchain, ?_⟩
      rw [hall, hvisited, take_of_length_le (hlast rfl), upTo_append_above h.ascending]

end Chains

/-! ## Whole replays -/

/-- What a visit of a pending message says: its body is not canonical, or its submission is accounted
for. -/
def Accounted (c : Config) (env : ℕ → Moment) (pending : List MessageView) (v : ℕ × Outcome) : Prop :=
  ∃ m ∈ pending, v.1 = m.messageId ∧
    match parseCanonicalChatBody c.lib m.content m.fromUserId m.toUserId with
    | .error e => v.2 = .invalidBody e
    | .ok _ => ∃ n status, v.2 = .submit status ∧ Accounts c.options (env n) (identity m) status

theorem visit_accounted {pending : List MessageView} {m : MessageView} (hm : m ∈ pending) (n : ℕ) :
    Accounted c env pending (m.messageId, visit c (env n) m) := by
  refine ⟨m, hm, rfl, ?_⟩
  unfold visit
  cases parseCanonicalChatBody c.lib m.content m.fromUserId m.toUserId with
  | error e => rfl
  | ok text => exact ⟨n, _, rfl, submit_accounts c.options (env n) (identity m)⟩

theorem PageLog.Ok.accounted {q : PageLog} (h : q.Ok c env pending) :
    ∀ v ∈ q.visits, Accounted c env pending v := by
  obtain ⟨k, rows, rfl, -, hvisits⟩ := h
  intro v hv
  obtain ⟨m, hm, n, rfl⟩ := hvisits.mem hv
  exact visit_accounted (mem_filter.1 (mem_of_mem_take hm)).1 n

theorem PageLog.Ok.wellFormed {q : PageLog} (h : Lists c pending) (hq : q.Ok c env pending)
    (hne : repairs q.visits ≠ []) : batchWellFormed c.user (repairs q.visits) = true := by
  obtain ⟨k, rows, rfl, hlength, hvisits⟩ := hq
  have hids := hvisits.ids
  have hsub : (repairs q.visits).Sublist (q.visits.map Prod.fst) :=
    List.filter_sublist.map _
  rw [hids] at hsub
  have hnodup : (((above pending q.after).take k).map MessageView.messageId).Nodup := by
    refine List.Pairwise.map _ (fun m m' hlt => Nat.ne_of_lt hlt) ?_
    exact (h.ascending.sublist List.filter_sublist).sublist (take_sublist _ _)
  have hlen := hsub.length_le
  rw [List.length_map] at hlen
  have hpos : ∀ id ∈ repairs q.visits, id ≠ 0 := by
    intro id hid
    obtain ⟨m, hm, rfl⟩ := mem_map.1 (hsub.subset hid)
    exact (h.row m (mem_filter.1 (mem_of_mem_take hm)).1).1.ne'
  simp only [batchWellFormed, Bool.and_eq_true, decide_eq_true_eq, List.all_eq_true]
  exact ⟨⟨⟨⟨h.user, hne⟩, hlen.trans hlength⟩, hpos⟩, hnodup.sublist hsub⟩

/-- What the replays do on a page: every row is accounted for, and what the tracker has confirmed is
repaired by one well-formed batch. -/
structure PageLog.Sound (c : Config) (env : ℕ → Moment) (pending : List MessageView) (q : PageLog) :
    Prop where
  accounted : ∀ v ∈ q.visits, Accounted c env pending v
  reported : ∀ v ∈ q.visits, v.2 ≠ .submit .connectionUnavailable
  repaired : repairs q.visits ≠ [] → batchWellFormed c.user (repairs q.visits) = true

theorem PageLog.Ok.sound {q : PageLog} (h : Lists c pending) (hlive : Live env turns)
    (hq : q.Ok c env pending) : q.Sound c env pending where
  accounted := hq.accounted
  reported v hv := by
    obtain ⟨k, rows, -, -, hvisits⟩ := hq
    obtain ⟨m, -, n, rfl⟩ := hvisits.mem hv
    exact hlive.visit_ne n m
  repaired := hq.wellFormed h

/-- The page that a call lists fits the byte budget, so only the transport can fail. -/
theorem Lists.rpc_ne_none (h : Lists c pending)
    (hfit : ∀ m ∈ pending, Message.charge m ≤ Message.kMaxPendingPageBytes) {turn : Turn}
    (hturn : turn.rpc = true) (hafter : after < 2 ^ 64) :
    listPendingAfterRpc c turn after ≠ none := by
  obtain ⟨records, hrecords⟩ :
    ∃ records, records = (above pending after).take kPendingReplayPageSize := ⟨_, rfl⟩
  have hmem : ∀ m ∈ records, m ∈ pending ∧ after < m.messageId := by
    intro m hm
    rw [hrecords] at hm
    have := mem_filter.1 (mem_of_mem_take hm)
    exact ⟨this.1, by simpa using this.2⟩
  have hsorted : records.Pairwise fun m m' => m.messageId < m'.messageId := by
    rw [hrecords]
    exact (h.ascending.sublist List.filter_sublist).sublist (take_sublist _ _)
  have hlength : records.length ≤ kPendingReplayPageSize := by
    rw [hrecords]
    exact List.length_take_le _ _
  have hvalid : ∀ k, pendingValid c.user after (records.take k) = true := fun k =>
    Message.pendingValid_of_pairwise c.user (hsorted.sublist (take_sublist _ _)) fun m hm =>
      have hm := hmem m (mem_of_mem_take hm)
      ⟨hm.2, (h.row m hm.1).2.2⟩
  obtain ⟨k, hk, -⟩ := @Message.takeRecords_spec records 0 0 (Nat.zero_le _) (fun _ => rfl)
    fun m hm => hfit m (hmem m hm).1
  have hvalidAll : pendingValid c.user after records = true := by
    simpa using hvalid records.length
  have hargs : ¬ (c.user = 0 || kPendingReplayPageSize = 0 ||
      kMaxPendingPageLimit < kPendingReplayPageSize : Bool) = true := by
    simp [h.user, kPendingReplayPageSize, kMaxPendingPageLimit]
  have hpage := h.page after hafter
  rw [← hrecords] at hpage
  have hlist : listPendingAfter (some c.find) c.user after kPendingReplayPageSize =
      { status := .succeeded
        messages := records.take k
        hasMore := k < records.length || records.length = kPendingReplayPageSize
        message := "pending messages queried" } := by
    unfold listPendingAfter
    rw [if_neg hargs]
    dsimp only
    rw [hpage]
    dsimp only
    rw [if_neg (by simp), if_neg (by omega), if_neg (by simp [hvalidAll]), hk, Nat.zero_add]
  unfold listPendingAfterRpc
  rw [hlist]
  simp [hturn, hvalid k, hlength]

/-- A replay without a lease visits every pending message once and in order, and ends; one with a
lease reads the page behind its cursor and completes after its rows; both account for every row and
repair in well-formed batches; and when a session's cursor returns to 0, its replays have visited
everything. -/
theorem offline_replay_complete {c : Config} {pending : List MessageView} (h : Lists c pending) :
    (∀ env turns, Live env turns →
      (∀ p, ∀ after < 2 ^ 64, listPendingAfterRpc c (turns p) after ≠ none) →
      ∃ (fuel : ℕ) (pages : List PageLog), (∀ fuel' ≥ fuel,
          executePersistentOfflineReplay c env turns none fuel' =
            some (pages.flatMap PageLog.events, .finished)) ∧
        visitedIds (pages.flatMap PageLog.events) = pending.map MessageView.messageId ∧
        ∀ q ∈ pages, q.completed = none ∧ q.Sound c env pending) ∧
    (∀ env turns cursor, cursor < 2 ^ 64 → Live env turns →
      (∀ p, ∀ after < 2 ^ 64, listPendingAfterRpc c (turns p) after ≠ none) →
      ∃ q last hasMore, (∀ fuel ≥ 2, executePersistentOfflineReplay c env turns (some cursor) fuel =
          some (q.events, .finished)) ∧
        Completion c env pending cursor last hasMore q ∧ q.Sound c env pending) ∧
    ∀ o ls s, Run (Step c o) Recovery.start ls s →
      ∀ pre epoch cursor visited last post,
        ls = pre ++ .replayed epoch cursor visited last false true :: post →
        ∃ chain : List (List ℕ), chain.Sublist (pre.filterMap (Label.page epoch)) ∧
          chain.flatten ++ visited = pending.map MessageView.messageId := by
  refine ⟨fun env turns hlive hrpc => ?_, fun env turns cursor hcursor hlive hrpc => ?_, ?_⟩
  · obtain ⟨fuel, pages, hrun, hpages, hids⟩ := h.visits_all hlive hrpc (by decide : 0 < 2 ^ 64) 0 0
    refine ⟨fuel, pages, fun fuel' hfuel => ?_, ?_, fun q hq => ?_⟩
    · unfold executePersistentOfflineReplay
      rw [if_neg h.user]
      exact hrun fuel' hfuel
    · have hall : above pending 0 = pending := by
        refine List.filter_eq_self.2 fun m hm => ?_
        simpa using (h.row m hm).1
      rw [visitedIds_flatMap, hids, hall]
    · exact ⟨(hpages q hq).2, (hpages q hq).1.sound h hlive⟩
  · obtain ⟨events, last, hasMore, hrun, hmem⟩ := h.recovery_live hlive hrpc hcursor
    obtain ⟨q, rfl, hq⟩ := h.recovery hcursor (hrun 2 le_rfl) hmem
    refine ⟨q, last, hasMore, fun fuel hfuel => ?_, hq, hq.ok.sound h hlive⟩
    unfold executePersistentOfflineReplay
    rw [if_neg h.user]
    exact hrun fuel hfuel
  · rintro o ls s hrun pre epoch cursor visited last post rfl
    exact chain_complete h hrun

/-! ## A user with two messages -/

def sampleBody : Json :=
  .object [(ascii "from", .unsigned 1), (ascii "to", .unsigned 2), (ascii "text", .string (ascii "hi"))]

def sampleLibrary : Json.Library where
  parse content := if content = ascii "hi" then .ok sampleBody else .error (.parseError [])
  dump _ := .ok (ascii "hi")
  truncate := Rat.floor

def samplePending : List MessageView :=
  [{ messageId := 3, fromUserId := 1, toUserId := 2, content := ascii "hi" },
    { messageId := 7, fromUserId := 1, toUserId := 2, content := ascii "?" }]

def sample : Config where
  user := 2
  find _ after limit := { status := .succeeded, records := (above samplePending after).take limit }
  lib := sampleLibrary
  options := ReceiverRetry.sample

def sampleMoment : Moment where
  current := true
  connected := true
  built := true
  seq := 1
  wireBytes := some 10
  stillConnected := true
  tracker := ReceiverRetry.start.tracker
  now := 0
  reencoded := true

theorem lists_sample : Lists sample samplePending where
  user := by decide
  ascending := by decide
  row m hm := by
    rcases List.mem_pair.1 hm with rfl | rfl <;> exact ⟨by decide, by decide, rfl, rfl⟩
  page _ _ := rfl

theorem live_sample : Live (fun _ => sampleMoment) fun _ => ⟨true, true, true⟩ where
  row _ := ⟨rfl, rfl, rfl⟩
  page _ := ⟨rfl, rfl⟩

theorem offline_replay_complete_sample :
    ∃ (fuel : ℕ) (events : List Event),
      executePersistentOfflineReplay sample (fun _ => sampleMoment) (fun _ => ⟨true, true, true⟩) none
        fuel = some (events, .finished) ∧ visitedIds events = [3, 7] := by
  obtain ⟨fuel, pages, hrun, hids, -⟩ := (offline_replay_complete lists_sample).1 _ _ live_sample
    fun _ _ hafter => lists_sample.rpc_ne_none (by decide) rfl hafter
  exact ⟨fuel, _, hrun fuel le_rfl, hids⟩

/-! ## From the local store to the gateway -/

theorem lists_store {opts : Local.Options} {s : Local.Store} {r : ℕ} (lib : Json.Library)
    (o : Options) (hlisted : Local.PendingListed opts s r kPendingReplayPageSize)
    (hnum : Local.Numbers s.db) (hr : r ≠ 0) :
    Lists ⟨r, Message.storePending opts s, lib, o⟩ (Local.pendingRecords s.db r) where
  user := hr
  ascending := hlisted.ascending
  row m hm := by
    obtain ⟨⟨mid, hmid⟩, hstate⟩ := (hlisted.members m).1 hm
    rw [hnum.sound.toRows.messageId hmid]
    exact ⟨Nat.pos_of_ne_zero (Local.decodeRecord_eq_ok.1 (hnum.sound.toRows.record hmid)).2.1,
      hnum.mid_lt hmid, hstate⟩
  page := hlisted.page

/-- From the store to the gateway: in every state of a run of the local store, a replay whose calls
arrive and whose session lives visits the messages that wait for its user, each once and in order. -/
theorem store_replayed {opts : Local.Options} {s : Local.Store}
    (h : Local.ReachableWith Local.UsersFit opts s) (hopen : Local.checkOpen s = .ok ()) {r : ℕ}
    (hr : r < 2 ^ 64) (hactor : Local.actor opts r = .ok ()) (lib : Json.Library) (o : ReceiverRetry.Options)
    {env : ℕ → Moment} {turns : ℕ → Turn} (hlive : Live env turns)
    (hrpc : ∀ p, (turns p).rpc = true) :
    ∃ (fuel : ℕ) (events : List Event),
      (∀ fuel' ≥ fuel, executePersistentOfflineReplay ⟨r, Message.storePending opts s, lib, o⟩ env
        turns none fuel' = some (events, .finished)) ∧
      (visitedIds events).Pairwise (· < ·) ∧
      ∀ mid, mid ∈ visitedIds events ↔
        ∃ m, s.db.lookup (.M mid) = some m ∧ m.toUserId = r ∧ m.deliveryState = .pending := by
  have hinv := h.reachable.inv
  have hnum : Local.Numbers s.db := ⟨hinv.sound, h.contents Local.usersFit_stable.lasts⟩
  have hcontent := h.reachable.withContent.contents Local.contentFits_stable.lasts
  have huntouched := h.reachable.withUntouched.contents Local.untouched_lasts
  have hr0 : r ≠ 0 := (Local.actor_pos hactor).ne'
  have hlisted : Local.PendingListed opts s r kPendingReplayPageSize :=
    Local.pendingListed hnum hopen hactor hr (by decide) (by decide)
  have hlists := lists_store lib o hlisted hnum hr0
  have hfit : ∀ m ∈ Local.pendingRecords s.db r, Message.charge m ≤ Message.kMaxPendingPageBytes := by
    intro m hm
    obtain ⟨⟨mid, hmid⟩, -, hstate⟩ := (hlisted.members m).1 hm
    exact Message.charge_pending hinv.sound.toRows hcontent huntouched hmid hstate
  obtain ⟨fuel, pages, hrun, -, hids⟩ := hlists.visits_all hlive
    (fun p after hafter => hlists.rpc_ne_none hfit (hrpc p) hafter) (by decide : 0 < 2 ^ 64) 0 0
  have hall : above (Local.pendingRecords s.db r) 0 = Local.pendingRecords s.db r := by
    refine List.filter_eq_self.2 fun m hm => ?_
    simpa using (hlists.row m hm).1
  rw [hall] at hids
  refine ⟨fuel, pages.flatMap PageLog.events, fun fuel' hfuel => ?_, ?_, fun mid => ?_⟩
  · unfold executePersistentOfflineReplay
    rw [if_neg hr0]
    exact hrun fuel' hfuel
  · rw [visitedIds_flatMap, hids]
    exact List.pairwise_map.2 hlisted.ascending
  · rw [visitedIds_flatMap, hids, List.mem_map]
    constructor
    · rintro ⟨m, hm, rfl⟩
      obtain ⟨⟨mid, hmid⟩, hto⟩ := (hlisted.members m).1 hm
      rw [hnum.sound.toRows.messageId hmid]
      exact ⟨m, hmid, hto⟩
    · rintro ⟨m, hmid, hto⟩
      exact ⟨m, (hlisted.members m).2 ⟨⟨mid, hmid⟩, hto⟩, hnum.sound.toRows.messageId hmid⟩

theorem store_replayed_sent : ∃ events,
    (visitedIds events).Pairwise (· < ·) ∧ ∀ mid, mid ∈ visitedIds events ↔
      ∃ m, Local.sampleSent.db.lookup (.M mid) = some m ∧ m.toUserId = 2 ∧
        m.deliveryState = .pending := by
  obtain ⟨-, events, -, hids⟩ := store_replayed Local.sampleSent_users rfl (by decide : 2 < 2 ^ 64)
    rfl sampleLibrary ReceiverRetry.sample live_sample fun _ => rfl
  exact ⟨events, hids⟩

end OfflineReplay

end TinyImx.Gateway
