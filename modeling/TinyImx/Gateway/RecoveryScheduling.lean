import TinyImx.Gateway.Recovery

/-!
# Recovery leases and the replay limit

The counter of active replays is the number of active sessions in every run.  Query leases carry
increasing generations, and a session carries the generation of the last lease on it, so a lease
whose query or session was given up never comes back.
-/

namespace TinyImx.Gateway.Recovery

variable {o : Options} {s s' : State} {c c' : Core} {l : Label} {q : QueryAttempt} {a : ReplayAttempt}
  {r r' : ReplayState} {u v epoch i : ℕ}

/-! ## What a call does to a session -/

theorem supersede_cases (h : c.supersede u epoch = some c') :
    (c' = c ∧ ∀ r, c.sessions.lookup u = some r → r.epoch = epoch) ∨
      ∃ r, c.sessions.lookup u = some r ∧ r.epoch < epoch ∧
        c' = { c with
          activeReplays := if r.active then c.activeReplays - 1 else c.activeReplays
          sessions := c.sessions.insert u ⟨epoch, 0, 0, false⟩ } := by
  unfold Core.supersede at h
  split at h
  · next hnone =>
    cases h
    simp_all
  · next r hr =>
    split at h
    · next hepoch =>
      cases h
      grind
    · next hne =>
      split at h
      · cases h
      · next hnot =>
        cases h
        exact .inr ⟨r, hr, by omega, rfl⟩

theorem session_cases (h : c.session o u epoch = some r) :
    r.active = false ∧ (c.sessions.lookup u = some r ∨
      (c.sessions.lookup u = none ∧ r = ⟨epoch, 0, 0, false⟩)) := by
  unfold Core.session at h
  split at h
  · next r₁ hr₁ =>
    grind
  · next hnone =>
    split at h
    · cases h
    · grind

/-- The core and the lease of a replay that begins on the session `r`. -/
def Core.begun (c : Core) (user : ℕ) (r : ReplayState) : Core :=
  { c with
    replayGeneration := c.replayGeneration + 1
    sessions := c.sessions.insert user { r with generation := c.replayGeneration + 1, active := true }
    activeReplays := c.activeReplays + 1 }

theorem supersede_eq_none (h : c.supersede u epoch = none) :
    ∃ r, c.sessions.lookup u = some r ∧ epoch < r.epoch := by
  unfold Core.supersede at h
  grind

theorem beginReplay_cases (o : Options) (s : State) (user epoch : ℕ) :
    (s.beginReplay o user epoch = s ∧ (user = 0 ∨ epoch = 0 ∨ s.core.stopped = true ∨
        ∃ r, s.core.sessions.lookup user = some r ∧ epoch < r.epoch)) ∨
      (s.core.stopped = false ∧ 0 < user) ∧ ∃ c, s.core.supersede user epoch = some c ∧
        (s.beginReplay o user epoch = { s with core := c } ∨
          ∃ r, c.session o user epoch = some r ∧ c.activeReplays < o.maxActiveReplays ∧
            s.beginReplay o user epoch = { s with
              core := c.begun user r
              replays := s.replays ++ [⟨user, r.epoch, c.replayGeneration + 1, r.cursor, false⟩] }) := by
  unfold State.beginReplay
  split
  · next hbad =>
    refine .inl ⟨rfl, ?_⟩
    grind
  · next hok =>
    simp only [not_or] at hok
    split
    · next hnone => exact .inl ⟨rfl, .inr (.inr (.inr (supersede_eq_none hnone)))⟩
    · next c hc =>
      refine .inr ⟨⟨by simpa using hok.2.2, by omega⟩, c, hc, ?_⟩
      split
      · exact .inl rfl
      · next r hr =>
        split
        · exact .inl rfl
        · next hroom => exact .inr ⟨r, hr, by omega, rfl⟩

theorem retire_cases (c : Core) (user epoch : ℕ) :
    (c.retire user epoch = c ∧ ∀ r, c.sessions.lookup user = some r → r.epoch ≠ epoch) ∨
      ∃ r, c.sessions.lookup user = some r ∧ r.epoch = epoch ∧
        c.retire user epoch = { c with
          activeReplays := if r.active then c.activeReplays - 1 else c.activeReplays
          sessions := c.sessions.erase user } := by
  unfold Core.retire
  split
  · next hnone =>
    simp_all
  · next r hr =>
    split
    · next hne =>
      refine .inl ⟨rfl, fun r' hr' => ?_⟩
      simp_all
    · next heq => exact .inr ⟨r, hr, not_not.1 heq, rfl⟩

theorem query_complete_cases (o : Options) (q : QueryAttempt) (ids : List ℕ) (hasMore : Bool) (now : ℕ)
    (c : Core) :
    q.complete o ids hasMore now c = (false, q, c) ∨
      q.Current c ∧ ∃ previous, lastOf q.cursor ids = some previous ∧
        q.complete o ids hasMore now c = (true, { q with finished := true },
          { c with
            recipients := ids
            cursor := if hasMore then previous else 0
            nextQuery := now + o.queryInterval
            queryActive := false }) := by
  unfold QueryAttempt.complete
  split
  · exact .inl rfl
  · split
    · exact .inl rfl
    · next previous hlast =>
      grind

theorem replay_complete_cases (a : ReplayAttempt) (last : ℕ) (hasMore : Bool) (c : Core) :
    a.complete last hasMore c = (false, a, c) ∨
      ∃ r, a.Current c r ∧ (hasMore = true → a.cursor < last) ∧
        a.complete last hasMore c = (true, { a with finished := true },
          a.finishLocked { r with cursor := if hasMore then last else 0 } c) := by
  unfold ReplayAttempt.complete
  split
  · exact .inl rfl
  · next hmore =>
    split
    · exact .inl rfl
    · next r hr =>
      split
      · next hcurrent =>
        grind
      · exact .inl rfl

theorem release_cases (a : ReplayAttempt) (c : Core) :
    (a.release c).1 = { a with finished := true } ∧
      ((a.release c).2 = c ∨ ∃ r, a.Current c r ∧ (a.release c).2 = a.finishLocked r c) := by
  refine ⟨rfl, ?_⟩
  unfold ReplayAttempt.release
  dsimp only
  grind

def QueryAttempt.key (q : QueryAttempt) : ℕ × ℕ := (q.generation, q.cursor)

def ReplayAttempt.key (a : ReplayAttempt) : ℕ × ℕ × ℕ × ℕ := (a.user, a.epoch, a.generation, a.cursor)

theorem map_set_eq {α β : Type} {f : α → β} {xs : List α} {x y : α} (h : xs[i]? = some x)
    (hy : f y = f x) : (xs.set i y).map f = xs.map f := by
  rw [List.map_set, hy]
  refine List.ext_getElem? fun j => ?_
  rw [List.getElem?_set]
  split
  · next hij =>
    subst hij
    split
    · rw [List.getElem?_map, h, Option.map_some]
    · next hlen =>
      rw [List.getElem?_eq_none (by omega)]
  · rfl

inductive Effect (o : Options) (s : State) (l : Label) (s' : State) : Prop
  | quiet : s'.core.sessions = s.core.sessions → s'.core.activeReplays = s.core.activeReplays →
      s'.core.replayGeneration = s.core.replayGeneration → s'.core.stopped = s.core.stopped →
      s'.replays.map ReplayAttempt.key = s.replays.map ReplayAttempt.key → Effect o s l s'
  | clear : (l = .stop ∨ l = .resume) → s'.core.sessions = ∅ → s'.core.activeReplays = 0 →
      s'.core.replayGeneration = s.core.replayGeneration → s'.replays = s.replays → Effect o s l s'
  | finish (i : ℕ) (a : ReplayAttempt) (r r' : ReplayState) : s.replays[i]? = some a →
      a.Current s.core r →
      (r' = r ∨ ∃ last hasMore, l = .replayComplete i last hasMore ∧
        (hasMore = true → a.cursor < last) ∧ r' = { r with cursor := if hasMore then last else 0 }) →
      s'.core = a.finishLocked r' s.core →
      s'.replays.map ReplayAttempt.key = s.replays.map ReplayAttempt.key → Effect o s l s'
  | retire (u : ℕ) (r : ReplayState) : s.core.sessions.lookup u = some r → l = .retire u r.epoch →
      s'.core = { s.core with
        activeReplays := if r.active then s.core.activeReplays - 1 else s.core.activeReplays
        sessions := s.core.sessions.erase u } →
      s'.replays = s.replays → Effect o s l s'
  | supersede (u epoch : ℕ) : l = .beginReplay u epoch → s.core.stopped = false → 0 < u →
      s.core.supersede u epoch = some s'.core → s'.replays = s.replays → Effect o s l s'
  | begin (u epoch : ℕ) (c : Core) (r : ReplayState) : l = .beginReplay u epoch →
      s.core.stopped = false → 0 < u → s.core.supersede u epoch = some c →
      c.session o u epoch = some r → c.activeReplays < o.maxActiveReplays → s'.core = c.begun u r →
      s'.replays = s.replays ++ [⟨u, r.epoch, c.replayGeneration + 1, r.cursor, false⟩] →
      Effect o s l s'

theorem step_effect (h : Step o s l s') : Effect o s l s' := by
  cases h with
  | resume => exact .clear (.inr rfl) rfl rfl rfl rfl
  | stop => exact .clear (.inl rfl) rfl rfl rfl rfl
  | acquireQuery now =>
    unfold State.acquireQuery
    dsimp only
    split <;> exact .quiet rfl rfl rfl rfl rfl
  | @queryComplete i q ids hasMore now hq =>
    unfold State.queryComplete
    rcases query_complete_cases o q ids hasMore now s.core with heq | ⟨-, previous, -, heq⟩
    · rw [heq]
      exact .quiet rfl rfl rfl rfl rfl
    · rw [heq]
      exact .quiet rfl rfl rfl rfl rfl
  | queryFail now hq =>
    unfold State.queryFail QueryAttempt.fail
    dsimp only
    split <;> exact .quiet rfl rfl rfl rfl rfl
  | takeRecipients budget =>
    unfold Core.takeRecipients
    split <;> exact .quiet rfl rfl rfl rfl rfl
  | beginReplay v epoch =>
    rcases beginReplay_cases o s v epoch with ⟨heq, -⟩ | ⟨⟨hgo, hv⟩, c, hc, heq | ⟨r, hr, hroom, heq⟩⟩
    · rw [heq]
      exact .quiet rfl rfl rfl rfl rfl
    · rw [heq]
      exact .supersede v epoch rfl hgo hv hc rfl
    · rw [heq]
      exact .begin v epoch c r rfl hgo hv hc hr hroom rfl rfl
  | @replayComplete i a last hasMore ha =>
    unfold State.replayComplete
    rcases replay_complete_cases a last hasMore s.core with heq | ⟨r, hcurrent, hmore, heq⟩
    · rw [heq]
      exact .quiet rfl rfl rfl rfl (map_set_eq ha rfl)
    · rw [heq]
      exact .finish i a r _ ha hcurrent (.inr ⟨last, hasMore, rfl, hmore, rfl⟩) rfl (map_set_eq ha rfl)
  | @replayRelease i a ha =>
    unfold State.replayRelease
    dsimp only
    rcases (release_cases a s.core).2 with heq | ⟨r, hcurrent, heq⟩
    · rw [heq]
      exact .quiet rfl rfl rfl rfl (map_set_eq ha rfl)
    · rw [heq]
      exact .finish i a r r ha hcurrent (.inl rfl) rfl (map_set_eq ha rfl)
  | retire v epoch =>
    rcases retire_cases s.core v epoch with ⟨heq, -⟩ | ⟨r, hr, rfl, heq⟩
    · rw [heq]
      exact .quiet rfl rfl rfl rfl rfl
    · exact .retire v r hr rfl heq rfl

/-- What a step with the label `l` may make of the session of `u`. -/
inductive Move (s : State) (l : Label) (s' : State) (u : ℕ) :
    Option ReplayState → Option ReplayState → Prop
  | keep (x : Option ReplayState) : Move s l s' u x x
  | clear (x : Option ReplayState) : l = .stop ∨ l = .resume → Move s l s' u x none
  | retire (r : ReplayState) : l = .retire u r.epoch → Move s l s' u (some r) none
  | release (r : ReplayState) : Move s l s' u (some r) (some { r with active := false })
  | complete (r : ReplayState) (a : ReplayAttempt) (i last : ℕ) (hasMore : Bool) :
      l = .replayComplete i last hasMore → s.replays[i]? = some a → a.user = u → a.Current s.core r →
      (hasMore = true → a.cursor < last) →
      Move s l s' u (some r)
        (some { r with cursor := if hasMore then last else 0, active := false })
  | supersede (r : ReplayState) (epoch : ℕ) : l = .beginReplay u epoch → r.epoch < epoch →
      Move s l s' u (some r) (some ⟨epoch, 0, 0, false⟩)
  | renew (r : ReplayState) : s'.core.replayGeneration = s.core.replayGeneration + 1 →
      Move s l s' u (some r)
        (some { r with generation := s.core.replayGeneration + 1, active := true })
  | begin (x : Option ReplayState) (epoch : ℕ) : l = .beginReplay u epoch →
      s'.core.replayGeneration = s.core.replayGeneration + 1 → s.core.stopped = false →
      (∀ r, x = some r → r.epoch < epoch) →
      Move s l s' u x (some ⟨epoch, s.core.replayGeneration + 1, 0, true⟩)

theorem finishLocked_lookup (a : ReplayAttempt) (r : ReplayState) (c : Core) (u : ℕ) :
    (a.finishLocked r c).sessions.lookup u =
      if u = a.user then some { r with active := false } else c.sessions.lookup u := by
  unfold ReplayAttempt.finishLocked
  split
  · next hu =>
    subst hu
    exact AList.lookup_insert _
  · next hu => exact AList.lookup_insert_ne hu

theorem begun_lookup (c : Core) (v : ℕ) (r : ReplayState) (u : ℕ) :
    (c.begun v r).sessions.lookup u =
      if u = v then some { r with generation := c.replayGeneration + 1, active := true }
      else c.sessions.lookup u := by
  unfold Core.begun
  split
  · next hu =>
    subst hu
    exact AList.lookup_insert _
  · next hu => exact AList.lookup_insert_ne hu

theorem supersede_replayGeneration (h : c.supersede u epoch = some c') :
    c'.replayGeneration = c.replayGeneration := by
  rcases supersede_cases h with ⟨rfl, -⟩ | ⟨r, -, -, rfl⟩ <;> rfl

theorem supersede_lookup_ne (h : c.supersede v epoch = some c') (hu : u ≠ v) :
    c'.sessions.lookup u = c.sessions.lookup u := by
  rcases supersede_cases h with ⟨rfl, -⟩ | ⟨r, -, -, rfl⟩
  · rfl
  · exact AList.lookup_insert_ne hu

theorem step_session (h : Step o s l s') (u : ℕ) :
    Move s l s' u (s.core.sessions.lookup u) (s'.core.sessions.lookup u) := by
  cases step_effect h with
  | quiet hsessions =>
    rw [hsessions]
    exact .keep _
  | clear hl hsessions =>
    rw [hsessions]
    exact .clear _ hl
  | finish i a r r' ha hcurrent hr' hcore =>
    rw [hcore, finishLocked_lookup]
    by_cases hu : u = a.user
    · rw [if_pos hu, hu, hcurrent.2.2.1]
      rcases hr' with rfl | ⟨last, hasMore, hl, hmore, rfl⟩
      · exact .release r'
      · exact .complete r a i last hasMore hl ha rfl hcurrent hmore
    · rw [if_neg hu]
      exact .keep _
  | retire v r hr hl hcore =>
    rw [hcore]
    by_cases huv : u = v
    · subst huv
      rw [hr, AList.lookup_erase]
      exact .retire r hl
    · rw [AList.lookup_erase_ne huv]
      exact .keep _
  | supersede v epoch hl hgo hv hc =>
    by_cases huv : u = v
    · subst huv
      rcases supersede_cases hc with ⟨heq, -⟩ | ⟨r, hr, hless, heq⟩
      · rw [heq]
        exact .keep _
      · rw [heq, hr, AList.lookup_insert]
        exact .supersede r epoch hl hless
    · rw [supersede_lookup_ne hc huv]
      exact .keep _
  | begin v epoch c r hl hgo hv hc hr hroom hcore =>
    have hgen := supersede_replayGeneration hc
    have hnext : s'.core.replayGeneration = s.core.replayGeneration + 1 := by
      rw [hcore, ← hgen]
      rfl
    rw [hcore, begun_lookup]
    by_cases huv : u = v
    · subst huv
      rw [if_pos rfl, hgen]
      rcases supersede_cases hc with ⟨rfl, hsame⟩ | ⟨r₀, hr₀, hless, rfl⟩
      · rcases session_cases hr with ⟨-, hfound | ⟨hnone, rfl⟩⟩
        · rw [hfound]
          exact .renew r hnext
        · rw [hnone]
          exact .begin none epoch hl hnext hgo (fun r hr => by cases hr)
      · rcases session_cases hr with ⟨-, hfound | ⟨hnone, -⟩⟩
        · rw [hr₀]
          rw [AList.lookup_insert] at hfound
          cases hfound
          exact .begin (some r₀) epoch hl hnext hgo (fun r hr => by cases hr; exact hless)
        · simp_all
    · rw [if_neg huv, supersede_lookup_ne hc huv]
      exact .keep _

/-! ## The replay limit -/

def ReplayState.weight (r : ReplayState) : ℕ := if r.active then 1 else 0

def Core.activeSessions (c : Core) : ℕ := Kv.tally (fun _ r => ReplayState.weight r) c.sessions

def Counted (o : Options) (c : Core) : Prop :=
  c.activeReplays = c.activeSessions ∧ c.activeReplays ≤ o.maxActiveReplays

theorem weight_of_active (h : r.active = true) : r.weight = 1 := by simp [ReplayState.weight, h]

theorem weight_of_inactive (h : r.active = false) : r.weight = 0 := by simp [ReplayState.weight, h]

theorem activeSessions_insert (c c' : Core) {u : ℕ} (hc : c'.sessions = c.sessions.insert u r') :
    c'.activeSessions + ((c.sessions.lookup u).elim 0 ReplayState.weight) =
      c.activeSessions + r'.weight := by
  unfold Core.activeSessions
  rw [hc]
  exact Kv.tally_insert (fun _ r => ReplayState.weight r) c.sessions u r'

theorem activeSessions_erase (c c' : Core) {u : ℕ} (hc : c'.sessions = c.sessions.erase u) :
    c'.activeSessions + ((c.sessions.lookup u).elim 0 ReplayState.weight) = c.activeSessions := by
  unfold Core.activeSessions
  rw [hc]
  exact Kv.tally_erase (fun _ r => ReplayState.weight r) c.sessions u

theorem Counted.finishLocked (h : Counted o c) (hr : a.Current c r) (r' : ReplayState) :
    Counted o (a.finishLocked r' c) := by
  have hins : (a.finishLocked r' c).activeSessions + r.weight =
      c.activeSessions + ReplayState.weight { r' with active := false } := by
    have := activeSessions_insert c (a.finishLocked r' c) (u := a.user) rfl
    rwa [hr.2.2.1, Option.elim_some] at this
  rw [weight_of_active hr.2.2.2.2.2, weight_of_inactive (r := { r' with active := false }) rfl] at hins
  obtain ⟨hcount, hlimit⟩ := h
  have hminus : (a.finishLocked r' c).activeReplays = c.activeReplays - 1 := rfl
  constructor <;> omega

theorem Counted.inactive (h : Counted o c)
    (hcount : c'.activeSessions + r.weight = c.activeSessions)
    (hc' : c'.activeReplays = if r.active then c.activeReplays - 1 else c.activeReplays) :
    Counted o c' := by
  obtain ⟨heq, hlimit⟩ := h
  cases hactive : r.active with
  | true =>
    rw [hactive, if_pos rfl] at hc'
    rw [weight_of_active hactive] at hcount
    constructor <;> omega
  | false =>
    rw [hactive, if_neg Bool.false_ne_true] at hc'
    rw [weight_of_inactive hactive] at hcount
    constructor <;> omega

theorem Counted.supersede (h : Counted o c) (hc' : c.supersede u epoch = some c') : Counted o c' := by
  rcases supersede_cases hc' with ⟨rfl, -⟩ | ⟨r, hr, -, rfl⟩
  · exact h
  · refine h.inactive ?_ rfl
    have := activeSessions_insert c { c with
      activeReplays := if r.active then c.activeReplays - 1 else c.activeReplays
      sessions := c.sessions.insert u ⟨epoch, 0, 0, false⟩ } rfl
    rwa [hr, Option.elim_some, weight_of_inactive (r := ⟨epoch, 0, 0, false⟩) rfl, Nat.add_zero] at this

theorem Counted.begun (h : Counted o c) (hr : c.session o u epoch = some r)
    (hroom : c.activeReplays < o.maxActiveReplays) : Counted o (c.begun u r) := by
  have hins := activeSessions_insert c (c.begun u r) rfl
  have hold : (c.sessions.lookup u).elim 0 ReplayState.weight = 0 := by
    rcases session_cases hr with ⟨hactive, hfound | ⟨hnone, -⟩⟩
    · rw [hfound, Option.elim_some, weight_of_inactive hactive]
    · rw [hnone, Option.elim_none]
  rw [hold, weight_of_active (r := { r with generation := c.replayGeneration + 1, active := true }) rfl]
    at hins
  obtain ⟨hcount, -⟩ := h
  have hplus : (c.begun u r).activeReplays = c.activeReplays + 1 := rfl
  constructor <;> omega

theorem Counted.retire (h : Counted o c) (hr : c.sessions.lookup u = some r)
    (hc' : c' = { c with
      activeReplays := if r.active then c.activeReplays - 1 else c.activeReplays
      sessions := c.sessions.erase u }) : Counted o c' := by
  refine h.inactive ?_ (by rw [hc'])
  have := activeSessions_erase c c' (u := u) (by rw [hc'])
  rwa [hr, Option.elim_some] at this

theorem Counted.empty (hc : c.sessions = ∅) (hn : c.activeReplays = 0) : Counted o c := by
  have hzero : c.activeSessions = 0 := by
    unfold Core.activeSessions
    rw [hc, Kv.tally_empty]
  constructor <;> omega

theorem Counted.congr (h : Counted o c) (hsessions : c'.sessions = c.sessions)
    (hactive : c'.activeReplays = c.activeReplays) : Counted o c' := by
  unfold Counted Core.activeSessions at h ⊢
  rwa [hsessions, hactive]

theorem Counted.step (h : Counted o s.core) (hstep : Step o s l s') : Counted o s'.core := by
  cases step_effect hstep with
  | quiet hsessions hactive => exact h.congr hsessions hactive
  | clear hl hsessions hactive => exact .empty hsessions hactive
  | finish i a r r' ha hcurrent hr' hcore =>
    rw [hcore]
    exact h.finishLocked hcurrent r'
  | retire u r hr hl hcore => exact h.retire hr hcore
  | supersede u epoch hl hgo hu hc => exact h.supersede hc
  | begin u epoch c r hl hgo hu hc hr hroom hcore =>
    rw [hcore]
    exact (h.supersede hc).begun hr hroom

/-! ## The leases -/

/-- A step issues at most one query lease, under the next generation. -/
theorem step_queries (h : Step o s l s') :
    s.core.queryGeneration ≤ s'.core.queryGeneration ∧
      (s'.queries.map QueryAttempt.key = s.queries.map QueryAttempt.key ∨
        (s'.queries.map QueryAttempt.key =
            s.queries.map QueryAttempt.key ++ [(s.core.queryGeneration + 1, s.core.cursor)] ∧
          s'.core.queryGeneration = s.core.queryGeneration + 1)) := by
  cases h with
  | resume => exact ⟨Nat.le_succ _, .inl rfl⟩
  | stop => exact ⟨Nat.le_succ _, .inl rfl⟩
  | acquireQuery now =>
    unfold State.acquireQuery
    dsimp only
    split
    · exact ⟨le_refl _, .inl rfl⟩
    · exact ⟨Nat.le_succ _, .inr ⟨by simp [QueryAttempt.key], rfl⟩⟩
  | @queryComplete i q ids hasMore now hq =>
    unfold State.queryComplete
    rcases query_complete_cases o q ids hasMore now s.core with heq | ⟨-, previous, -, heq⟩
    · rw [heq]
      exact ⟨le_refl _, .inl (map_set_eq hq rfl)⟩
    · rw [heq]
      exact ⟨le_refl _, .inl (map_set_eq hq rfl)⟩
  | queryFail now hq =>
    unfold State.queryFail QueryAttempt.fail
    dsimp only
    split <;> exact ⟨le_refl _, .inl (map_set_eq hq rfl)⟩
  | takeRecipients budget =>
    unfold Core.takeRecipients
    split <;> exact ⟨le_refl _, .inl rfl⟩
  | beginReplay v epoch =>
    rcases beginReplay_cases o s v epoch with ⟨heq, -⟩ | ⟨-, c, hc, hcases⟩
    · rw [heq]
      exact ⟨le_refl _, .inl rfl⟩
    · have hgen : c.queryGeneration = s.core.queryGeneration := by
        rcases supersede_cases hc with ⟨rfl, -⟩ | ⟨r, -, -, rfl⟩ <;> rfl
      rcases hcases with heq | ⟨r, -, -, heq⟩
      · rw [heq]
        exact ⟨hgen.ge, .inl rfl⟩
      · rw [heq]
        exact ⟨hgen.ge, .inl rfl⟩
  | @replayComplete i a last hasMore ha =>
    unfold State.replayComplete
    rcases replay_complete_cases a last hasMore s.core with heq | ⟨r, -, -, heq⟩
    · simp_all
    · rw [heq]
      exact ⟨le_refl _, .inl rfl⟩
  | @replayRelease i a ha =>
    unfold State.replayRelease
    dsimp only
    rcases (release_cases a s.core).2 with heq | ⟨r, -, heq⟩
    · rw [heq]
      exact ⟨le_refl _, .inl rfl⟩
    · rw [heq]
      exact ⟨le_refl _, .inl rfl⟩
  | retire v epoch =>
    dsimp only
    rcases retire_cases s.core v epoch with ⟨heq, -⟩ | ⟨r, -, -, heq⟩
    · grind
    · simp_all

theorem step_replays (h : Step o s l s') :
    (s'.core.replayGeneration = s.core.replayGeneration ∧
        s'.replays.map ReplayAttempt.key = s.replays.map ReplayAttempt.key) ∨
      ∃ u r, 0 < u ∧ s'.core.replayGeneration = s.core.replayGeneration + 1 ∧
        s'.replays.map ReplayAttempt.key =
          s.replays.map ReplayAttempt.key ++ [(u, r.epoch, s.core.replayGeneration + 1, r.cursor)] ∧
        s'.core.sessions.lookup u = some r ∧ r.generation = s.core.replayGeneration + 1 := by
  cases step_effect h with
  | quiet _ _ hgen _ hkeys => exact .inl ⟨hgen, hkeys⟩
  | clear _ _ _ hgen hreplays => exact .inl ⟨hgen, by rw [hreplays]⟩
  | finish i a r r' ha hcurrent hr' hcore hkeys => exact .inl ⟨by rw [hcore]; rfl, hkeys⟩
  | retire u r hr hl hcore hreplays => exact .inl ⟨by rw [hcore], by rw [hreplays]⟩
  | supersede u epoch hl hgo hu hc hreplays =>
    exact .inl ⟨supersede_replayGeneration hc, by rw [hreplays]⟩
  | begin u epoch c r hl hgo hu hc hr hroom hcore hreplays =>
    have hgen := supersede_replayGeneration hc
    refine .inr ⟨u, { r with generation := c.replayGeneration + 1, active := true }, hu, ?_, ?_, ?_, ?_⟩
    · rw [hcore, ← hgen]
      rfl
    · rw [hreplays, hgen]
      simp [ReplayAttempt.key]
    · rw [hcore, begun_lookup, if_pos rfl]
    · rw [hgen]

structure Sound (s : State) : Prop where
  queryLe : ∀ k ∈ s.queries.map QueryAttempt.key, k.1 ≤ s.core.queryGeneration
  queryLt : (s.queries.map QueryAttempt.key).Pairwise (·.1 < ·.1)
  replayLe : ∀ k ∈ s.replays.map ReplayAttempt.key,
    0 < k.2.2.1 ∧ k.2.2.1 ≤ s.core.replayGeneration ∧ 0 < k.1
  sessionLe : ∀ u r, s.core.sessions.lookup u = some r → r.generation ≤ s.core.replayGeneration
  epoch : ∀ k ∈ s.replays.map ReplayAttempt.key, ∀ r, s.core.sessions.lookup k.1 = some r →
    r.generation = k.2.2.1 → r.epoch = k.2.1
  idle : s.core.stopped = true → ∀ u, s.core.sessions.lookup u = none

theorem Sound.start : Sound start where
  queryLe k hk := by cases hk
  queryLt := .nil
  replayLe k hk := by cases hk
  sessionLe u r hr := by cases hr
  epoch k hk := by cases hk
  idle _ _ := rfl

theorem Move.generation {x y : Option ReplayState} (h : Move s l s' u x y) (hy : y = some r') :
    (∃ r, x = some r ∧ r'.generation = r.generation ∧ r'.epoch = r.epoch) ∨ r'.generation = 0 ∨
      (r'.generation = s.core.replayGeneration + 1 ∧
        s'.core.replayGeneration = s.core.replayGeneration + 1) := by
  cases h with
  | keep => exact .inl ⟨r', hy, rfl, rfl⟩
  | clear => cases hy
  | retire => cases hy
  | release r =>
    grind
  | complete r =>
    cases hy
    exact .inl ⟨r, rfl, rfl, rfl⟩
  | supersede =>
    cases hy
    exact .inr (.inl rfl)
  | renew r hgen =>
    cases hy
    exact .inr (.inr ⟨rfl, hgen⟩)
  | begin x epoch hl hgen =>
    cases hy
    exact .inr (.inr ⟨rfl, hgen⟩)

theorem step_replayGeneration (h : Step o s l s') :
    s.core.replayGeneration ≤ s'.core.replayGeneration := by
  rcases step_replays h with ⟨hgen, -⟩ | ⟨u, r, -, hgen, -⟩ <;> omega

theorem step_stopped (h : Step o s l s') (hs : s'.core.stopped = true) :
    l = .stop ∨ s.core.stopped = true := by
  cases step_effect h with
  | quiet _ _ _ hstopped => exact .inr (hstopped ▸ hs)
  | clear hl =>
    rcases hl with rfl | rfl
    · exact .inl rfl
    · cases h
      cases hs
  | finish i a r r' ha hcurrent hr' hcore =>
    rw [hcore] at hs
    exact .inr hs
  | retire u r hr hl hcore =>
    rw [hcore] at hs
    exact .inr hs
  | supersede u epoch hl hgo hu hc =>
    rcases supersede_cases hc with ⟨heq, -⟩ | ⟨r, -, -, heq⟩
    · rw [heq] at hs
      exact .inr hs
    · rw [heq] at hs
      exact .inr hs
  | begin u epoch c r hl hgo hu hc hr hroom hcore =>
    rw [hcore] at hs
    rcases supersede_cases hc with ⟨rfl, -⟩ | ⟨r, -, -, rfl⟩ <;> exact .inr hs

theorem Move.none_of_stopped {x y : Option ReplayState} (h : Move s l s' u x y)
    (hs : s.core.stopped = true) (hx : x = none) : y = none := by
  cases h with
  | keep => exact hx
  | clear => rfl
  | retire => rfl
  | release | complete | supersede | renew => cases hx
  | begin _ _ _ _ hgo =>
    rw [hs] at hgo
    cases hgo

theorem Sound.step (h : Sound s) (hstep : Step o s l s') : Sound s' := by
  have hmono := step_replayGeneration hstep
  obtain ⟨hquery, hqueries⟩ := step_queries hstep
  have hold : ∀ k ∈ s.replays.map ReplayAttempt.key, ∀ r, s'.core.sessions.lookup k.1 = some r →
      r.generation = k.2.2.1 → r.epoch = k.2.1 := by
    intro k hk r hr hgen
    have hle := h.replayLe k hk
    rcases (step_session hstep k.1).generation hr with ⟨r₀, hr₀, hgen₀, hepoch⟩ | hzero | ⟨hnext, -⟩
    · rw [hepoch]
      exact h.epoch k hk r₀ hr₀ (hgen₀.symm.trans hgen)
    · omega
    · omega
  exact {
    queryLe := by
      intro k hk
      rcases hqueries with heq | ⟨heq, hgen⟩
      · rw [heq] at hk
        exact (h.queryLe k hk).trans hquery
      · rw [heq, List.mem_append, List.mem_singleton] at hk
        rcases hk with hk | rfl
        · exact (h.queryLe k hk).trans hquery
        · exact hgen.ge
    queryLt := by
      rcases hqueries with heq | ⟨heq, -⟩
      · rw [heq]
        exact h.queryLt
      · rw [heq, List.pairwise_append]
        refine ⟨h.queryLt, List.pairwise_singleton _ _, fun k hk k' hk' => ?_⟩
        rw [List.mem_singleton] at hk'
        subst hk'
        exact Nat.lt_succ_of_le (h.queryLe k hk)
    replayLe := by
      intro k hk
      rcases step_replays hstep with ⟨-, heq⟩ | ⟨u, r, hu, hgen, heq, -⟩
      · rw [heq] at hk
        exact ⟨(h.replayLe k hk).1, (h.replayLe k hk).2.1.trans hmono, (h.replayLe k hk).2.2⟩
      · rw [heq, List.mem_append, List.mem_singleton] at hk
        rcases hk with hk | rfl
        · exact ⟨(h.replayLe k hk).1, (h.replayLe k hk).2.1.trans hmono, (h.replayLe k hk).2.2⟩
        · exact ⟨Nat.succ_pos _, hgen.ge, hu⟩
    sessionLe := by
      intro u r hr
      rcases (step_session hstep u).generation hr with ⟨r₀, hr₀, hgen, -⟩ | hgen | ⟨hgen, hnext⟩
      · have := h.sessionLe u r₀ hr₀
        omega
      · omega
      · omega
    epoch := by
      intro k hk r hr hgen
      rcases step_replays hstep with ⟨-, heq⟩ | ⟨u, r₀, -, -, heq, hr₀, -⟩
      · rw [heq] at hk
        exact hold k hk r hr hgen
      · rw [heq, List.mem_append, List.mem_singleton] at hk
        rcases hk with hk | rfl
        · exact hold k hk r hr hgen
        · rw [hr₀] at hr
          cases hr
          rfl
    idle := by
      intro hs u
      rcases step_stopped hstep hs with rfl | hstopped
      · cases hstep
        rfl
      · have hmove := step_session hstep u
        rw [h.idle hstopped u] at hmove
        exact hmove.none_of_stopped hstopped rfl }

theorem Sound.query_unique (h : Sound s) {j : ℕ} {q' : QueryAttempt} (hi : s.queries[i]? = some q)
    (hj : s.queries[j]? = some q') (hq : q.Current s.core) (hq' : q'.Current s.core) : i = j := by
  have hnodup : ((s.queries.map QueryAttempt.key).map Prod.fst).Nodup :=
    (List.pairwise_map.2 h.queryLt).imp fun hlt => Nat.ne_of_lt hlt
  have hgeni : ((s.queries.map QueryAttempt.key).map Prod.fst)[i]? = some q.generation := by
    simp [hi, QueryAttempt.key]
  have hgenj : ((s.queries.map QueryAttempt.key).map Prod.fst)[j]? = some q'.generation := by
    simp [hj, QueryAttempt.key]
  rw [← hq.2.2.2] at hgeni
  rw [← hq'.2.2.2] at hgenj
  exact (List.getElem?_inj (List.getElem?_eq_some_iff.1 hgeni).1 hnodup).1 (hgeni.trans hgenj.symm)

/-! ## Leases that were given up -/

def FencesQuery : Label → Prop
  | .stop => True
  | .resume => True
  | _ => False

def FencesReplay (a : ReplayAttempt) : Label → Prop
  | .stop => True
  | .resume => True
  | .retire user epoch => user = a.user ∧ epoch = a.epoch
  | .beginReplay user epoch => user = a.user ∧ a.epoch < epoch
  | _ => False

structure Later (s s' : State) : Prop where
  queries : s.queries.map QueryAttempt.key <+: s'.queries.map QueryAttempt.key
  replays : s.replays.map ReplayAttempt.key <+: s'.replays.map ReplayAttempt.key

theorem Later.step (h : Step o s l s') : Later s s' := by
  constructor
  · rcases (step_queries h).2 with heq | ⟨heq, -⟩
    · rw [heq]
    · exact ⟨_, heq.symm⟩
  · rcases step_replays h with ⟨-, heq⟩ | ⟨u, r, -, -, heq, -⟩
    · rw [heq]
    · exact ⟨_, heq.symm⟩

theorem Later.run {ls : List Label} (h : Run (Step o) s ls s') : Later s s' :=
  Run.mono (I := fun _ => True) (R := Later) (fun _ => ⟨List.prefix_rfl, List.prefix_rfl⟩)
    (fun h h' => ⟨h.queries.trans h'.queries, h.replays.trans h'.replays⟩)
    (fun _ _ _ _ hstep => ⟨trivial, Later.step hstep⟩) h trivial

theorem getElem?_of_prefix {α : Type} {xs ys : List α} {x : α} (h : xs <+: ys) (hx : xs[i]? = some x) :
    ys[i]? = some x := by
  obtain ⟨zs, rfl⟩ := h
  rw [List.getElem?_append_left (List.getElem?_eq_some_iff.1 hx).1, hx]

theorem Later.query_key (h : Later s s') {q' : QueryAttempt} (hq : s.queries[i]? = some q)
    (hq' : s'.queries[i]? = some q') : q'.key = q.key := by
  have hk : (s'.queries.map QueryAttempt.key)[i]? = some q.key :=
    getElem?_of_prefix h.queries (by simp [hq])
  simpa [hq'] using hk

theorem Later.replay_key (h : Later s s') {a' : ReplayAttempt} (ha : s.replays[i]? = some a)
    (ha' : s'.replays[i]? = some a') : a'.key = a.key := by
  have hk : (s'.replays.map ReplayAttempt.key)[i]? = some a.key :=
    getElem?_of_prefix h.replays (by simp [ha])
  simpa [ha'] using hk

theorem QueryAttempt.stale (h : ¬q.Current c) (ids : List ℕ) (hasMore : Bool) (now : ℕ) :
    q.complete o ids hasMore now c = (false, q, c) ∧ (q.fail o now c).2 = c := by
  constructor
  · rcases query_complete_cases o q ids hasMore now c with heq | ⟨hcurrent, -⟩
    · exact heq
    · exact absurd hcurrent h
  · unfold QueryAttempt.fail
    rw [if_neg h]

theorem ReplayAttempt.stale (h : ∀ r, ¬a.Current c r) (last : ℕ) (hasMore : Bool) :
    a.complete last hasMore c = (false, a, c) ∧ (a.release c).2 = c := by
  constructor
  · rcases replay_complete_cases a last hasMore c with heq | ⟨r, hcurrent, -⟩
    · exact heq
    · exact absurd hcurrent (h r)
  · rcases (release_cases a c).2 with heq | ⟨r, hcurrent, -⟩
    · exact heq
    · exact absurd hcurrent (h r)

theorem queryGeneration_mono {ls : List Label} (h : Run (Step o) s ls s') :
    s.core.queryGeneration ≤ s'.core.queryGeneration :=
  Run.mono (I := fun _ => True) (R := fun s s' => s.core.queryGeneration ≤ s'.core.queryGeneration)
    (fun _ => le_refl _) (fun h h' => h.trans h')
    (fun _ _ _ _ hstep => ⟨trivial, (step_queries hstep).1⟩) h trivial

def Gone (u g : ℕ) (s : State) : Prop :=
  0 < g ∧ g ≤ s.core.replayGeneration ∧ ∀ r, s.core.sessions.lookup u = some r → r.generation ≠ g

theorem Gone.step {g : ℕ} (h : Gone u g s) (hstep : Step o s l s') : Gone u g s' := by
  refine ⟨h.1, h.2.1.trans (step_replayGeneration hstep), fun r hr => ?_⟩
  rcases (step_session hstep u).generation hr with ⟨r₀, hr₀, hgen, -⟩ | hgen | ⟨hgen, -⟩
  · rw [hgen]
    exact h.2.2 r₀ hr₀
  · have := h.1
    omega
  · have := h.2.1
    omega

theorem Sound.gone_begin (h : Sound s) (hepoch : ∀ r, s.core.sessions.lookup a.user = some r →
      r.generation = a.generation → r.epoch = a.epoch)
    (huser : 0 < a.user) (hgen : 0 < a.generation ∧ a.generation ≤ s.core.replayGeneration)
    (hless : a.epoch < epoch)
    (hr : (s.beginReplay o a.user epoch).core.sessions.lookup a.user = some r) :
    r.generation ≠ a.generation := by
  intro heq
  rcases beginReplay_cases o s a.user epoch with ⟨hsame, hwhy⟩ | ⟨-, c, hc, hcases⟩
  · rw [hsame] at hr
    rcases hwhy with h0 | h0 | hstopped | ⟨r₀, hr₀, hlt⟩
    · omega
    · omega
    · rw [h.idle hstopped] at hr
      cases hr
    · grind
  · have hsup : ∀ r, c.sessions.lookup a.user = some r → r.generation ≠ a.generation := by
      intro r₁ hr₁ heq₁
      rcases supersede_cases hc with ⟨rfl, hsame⟩ | ⟨r₀, -, -, rfl⟩
      · have := hsame r₁ hr₁
        simp_all
      · dsimp only at hr₁
        rw [AList.lookup_insert] at hr₁
        cases hr₁
        exact absurd heq₁ (Nat.ne_of_lt hgen.1)
    rcases hcases with hs' | ⟨r₁, -, -, hs'⟩
    · rw [hs'] at hr
      exact hsup r hr heq
    · rw [hs', begun_lookup, if_pos rfl, supersede_replayGeneration hc] at hr
      cases hr
      grind

theorem Sound.gone (h : Sound s) (ha : a ∈ s.replays) (hl : FencesReplay a l) (hstep : Step o s l s') :
    Gone a.user a.generation s' := by
  have hkey : a.key ∈ s.replays.map ReplayAttempt.key := List.mem_map_of_mem ha
  have hgen := h.replayLe a.key hkey
  -- a session under the generation of the lease has its epoch
  have hepoch : ∀ r, s.core.sessions.lookup a.user = some r → r.generation = a.generation →
      r.epoch = a.epoch := fun r hr heq => h.epoch a.key hkey r hr heq
  refine ⟨hgen.1, hgen.2.1.trans (step_replayGeneration hstep), fun r hr heq => ?_⟩
  cases hstep with
  | resume => cases hr
  | stop => cases hr
  | retire user epoch =>
    obtain ⟨rfl, rfl⟩ := hl
    rcases retire_cases s.core a.user a.epoch with ⟨hsame, hne⟩ | ⟨r₀, hr₀, -, hsame⟩
    · rw [hsame] at hr
      exact hne r hr (hepoch r hr heq)
    · rw [hsame] at hr
      rw [AList.lookup_erase] at hr
      cases hr
  | beginReplay user epoch =>
    obtain ⟨rfl, hless⟩ := hl
    exact h.gone_begin hepoch hgen.2.2 ⟨hgen.1, hgen.2.1⟩ hless hr heq
  | acquireQuery | queryComplete | queryFail | takeRecipients | replayComplete | replayRelease =>
    exact hl.elim

/-! ## Whole runs -/

theorem step_epoch (h : Step o s l s') (hl : l ≠ .stop ∧ l ≠ .resume ∧ ∀ epoch, l ≠ .retire u epoch)
    (hr : s.core.sessions.lookup u = some r) :
    ∃ r', s'.core.sessions.lookup u = some r' ∧ r.epoch ≤ r'.epoch := by
  have hmove := step_session h u
  rw [hr] at hmove
  generalize s'.core.sessions.lookup u = y at hmove ⊢
  cases hmove with
  | keep => exact ⟨r, rfl, le_refl _⟩
  | clear _ hclear =>
    simp_all
  | retire _ heq => exact absurd heq (hl.2.2 r.epoch)
  | release => exact ⟨_, rfl, le_refl _⟩
  | complete => exact ⟨_, rfl, le_refl _⟩
  | supersede _ epoch _ hless => exact ⟨_, rfl, Nat.le_of_lt hless⟩
  | renew => exact ⟨_, rfl, le_refl _⟩
  | begin _ epoch _ _ _ hless => exact ⟨_, rfl, Nat.le_of_lt (hless r rfl)⟩

theorem run_epoch {ls : List Label} (h : Run (Step o) s ls s')
    (hls : ∀ l ∈ ls, l ≠ .stop ∧ l ≠ .resume ∧ ∀ epoch, l ≠ .retire u epoch)
    (hr : s.core.sessions.lookup u = some r) :
    ∃ r', s'.core.sessions.lookup u = some r' ∧ r.epoch ≤ r'.epoch := by
  refine h.invariant_of_forall (I := fun s => ∃ r', s.core.sessions.lookup u = some r' ∧
    r.epoch ≤ r'.epoch) (fun s₁ l s₂ h₁ hl hstep => ?_) hls ⟨r, hr, le_refl _⟩
  obtain ⟨r₁, hr₁, hle⟩ := h₁
  obtain ⟨r₂, hr₂, hle'⟩ := step_epoch hstep hl hr₁
  exact ⟨r₂, hr₂, hle.trans hle'⟩

theorem step_cursor (h : Step o s l s') (hr' : s'.core.sessions.lookup u = some r') :
    r'.cursor = 0 ∨
      (∃ r, s.core.sessions.lookup u = some r ∧ r.epoch = r'.epoch ∧ r'.cursor = r.cursor) ∨
      ∃ i a last, l = .replayComplete i last true ∧ s.replays[i]? = some a ∧ a.user = u ∧
        a.epoch = r'.epoch ∧ a.cursor < last ∧ r'.cursor = last := by
  have hmove := step_session h u
  rw [hr'] at hmove
  generalize s.core.sessions.lookup u = x at hmove ⊢
  cases hmove with
  | keep => exact .inr (.inl ⟨r', rfl, rfl, rfl⟩)
  | release r => exact .inr (.inl ⟨r, rfl, rfl, rfl⟩)
  | complete r a i last hasMore hl ha hu hcurrent hmore =>
    cases hasMore with
    | false => exact .inl rfl
    | true => exact .inr (.inr ⟨i, a, last, hl, ha, hu, hcurrent.2.2.2.1.symm, hmore rfl, rfl⟩)
  | supersede => exact .inl rfl
  | renew r => exact .inr (.inl ⟨r, rfl, rfl, rfl⟩)
  | begin => exact .inl rfl

theorem run_cursor {ls : List Label} (hrun : Run (Step o) start ls s) :
    ∀ u r, s.core.sessions.lookup u = some r → r.cursor = 0 ∨
      ∃ (i : ℕ) (a : ReplayAttempt), .replayComplete i r.cursor true ∈ ls ∧
        s.replays[i]? = some a ∧ a.user = u ∧
        a.epoch = r.epoch ∧ a.cursor < r.cursor := by
  induction hrun with
  | nil =>
    intro u r hr
    cases hr
  | @snoc s₁ s₂ ls l hrun hstep ih =>
    intro u r hr
    -- the lease is still there after the step, with the key it was issued with
    have hkept : ∀ (i : ℕ) (a : ReplayAttempt), s₁.replays[i]? = some a → a.user = u →
        a.epoch = r.epoch → a.cursor < r.cursor → ∃ a' : ReplayAttempt, s₂.replays[i]? = some a' ∧
          a'.user = u ∧ a'.epoch = r.epoch ∧ a'.cursor < r.cursor := by
      intro i a ha hu hepoch hless
      have hk : (s₂.replays.map ReplayAttempt.key)[i]? = some a.key :=
        getElem?_of_prefix (Later.step hstep).replays (by simp [ha])
      obtain ⟨a', ha', hkey⟩ := Option.map_eq_some_iff.1 (List.getElem?_map ▸ hk)
      simp only [ReplayAttempt.key, Prod.mk.injEq] at hkey
      exact ⟨a', ha', by omega, by omega, by omega⟩
    rcases step_cursor hstep hr with hzero | ⟨r₁, hr₁, hepoch, hcursor⟩ | ⟨i, a, last, hl, ha, hu, hepoch,
        hless, rfl⟩
    · exact .inl hzero
    · rcases ih u r₁ hr₁ with hzero | ⟨i, a, hmem, ha, hu, haepoch, hless⟩
      · exact .inl (hcursor.trans hzero)
      · obtain ⟨a', ha', h'⟩ := hkept i a ha hu (haepoch.trans hepoch) (by omega)
        exact .inr ⟨i, a', by rw [hcursor]; exact List.mem_append_left _ hmem, ha', h'⟩
    · obtain ⟨a', ha', h'⟩ := hkept i a ha hu hepoch hless
      exact .inr ⟨i, a', by rw [hl]; simp, ha', h'⟩

/-- In every run the counter of active replays is the number of active sessions and within its limit,
at most one query lease is current, leases that a `Stop`, `Resume`, `Retire` or a newer epoch gave up
change nothing any more, epochs do not go back between those, and a cursor other than 0 is past the
one its lease started from. -/
theorem recovery_scheduling (o : Options) {ls : List Label} (hrun : Run (Step o.clamp) start ls s) :
    (s.core.activeReplays = s.core.activeSessions ∧
      s.core.activeReplays ≤ o.clamp.maxActiveReplays) ∧
    (∀ (i j : ℕ) (q q' : QueryAttempt), s.queries[i]? = some q → s.queries[j]? = some q' → q.Current s.core →
      q'.Current s.core → i = j) ∧
    (∀ l s₁ ls' s' (i : ℕ) (q q' : QueryAttempt), s.queries[i]? = some q → FencesQuery l → Step o.clamp s l s₁ →
      Run (Step o.clamp) s₁ ls' s' → s'.queries[i]? = some q' → ∀ ids hasMore now,
      q'.complete o.clamp ids hasMore now s'.core = (false, q', s'.core) ∧
        (q'.fail o.clamp now s'.core).2 = s'.core) ∧
    (∀ l s₁ ls' s' (i : ℕ) (a a' : ReplayAttempt), s.replays[i]? = some a → FencesReplay a l → Step o.clamp s l s₁ →
      Run (Step o.clamp) s₁ ls' s' → s'.replays[i]? = some a' → ∀ last hasMore,
      a'.complete last hasMore s'.core = (false, a', s'.core) ∧ (a'.release s'.core).2 = s'.core) ∧
    (∀ u r ls' s', s.core.sessions.lookup u = some r → Run (Step o.clamp) s ls' s' →
      (∀ l ∈ ls', l ≠ .stop ∧ l ≠ .resume ∧ ∀ epoch, l ≠ .retire u epoch) →
      ∃ r', s'.core.sessions.lookup u = some r' ∧ r.epoch ≤ r'.epoch) ∧
    ∀ u r, s.core.sessions.lookup u = some r → r.cursor = 0 ∨
      ∃ (i : ℕ) (a : ReplayAttempt), .replayComplete i r.cursor true ∈ ls ∧
        s.replays[i]? = some a ∧ a.user = u ∧
        a.epoch = r.epoch ∧ a.cursor < r.cursor := by
  have hcount : Counted o.clamp s.core :=
    hrun.invariant (I := fun s => Counted o.clamp s.core) (fun _ _ _ h hstep => h.step hstep)
      (.empty rfl rfl)
  have h : Sound s := hrun.invariant (fun _ _ _ h hstep => h.step hstep) .start
  refine ⟨hcount, fun i j q q' hi hj hq hq' => h.query_unique hi hj hq hq', ?_, ?_, ?_, run_cursor hrun⟩
  · intro l s₁ ls' s' i q q' hq hl hstep hrun' hq' ids hasMore now
    refine QueryAttempt.stale (fun hcurrent => ?_) ids hasMore now
    have hkey : q'.key = q.key := by
      have hlater : Later s s' :=
        ⟨(Later.step hstep).queries.trans (Later.run hrun').queries,
          (Later.step hstep).replays.trans (Later.run hrun').replays⟩
      exact hlater.query_key hq hq'
    have hgen : q'.generation = q.generation := congrArg Prod.fst hkey
    have hle : q.generation ≤ s.core.queryGeneration :=
      h.queryLe q.key (List.mem_map_of_mem (List.mem_of_getElem? hq))
    have hnext : s₁.core.queryGeneration = s.core.queryGeneration + 1 := by
      cases hstep with
      | resume => rfl
      | stop => rfl
      | acquireQuery | queryComplete | queryFail | takeRecipients | beginReplay | replayComplete
      | replayRelease | retire => exact hl.elim
    have hmono := queryGeneration_mono hrun'
    have hcur := hcurrent.2.2.2
    omega
  · intro l s₁ ls' s' i a a' ha hl hstep hrun' ha' last hasMore
    refine ReplayAttempt.stale (fun r hcurrent => ?_) last hasMore
    have hkey : a'.key = a.key := by
      have hlater : Later s s' :=
        ⟨(Later.step hstep).queries.trans (Later.run hrun').queries,
          (Later.step hstep).replays.trans (Later.run hrun').replays⟩
      exact hlater.replay_key ha ha'
    simp only [ReplayAttempt.key, Prod.mk.injEq] at hkey
    have hgone : Gone a.user a.generation s' :=
      hrun'.invariant (fun _ _ _ h hstep => h.step hstep)
        (h.gone (List.mem_of_getElem? ha) hl hstep)
    obtain ⟨-, -, hr, -, hgen, -⟩ := hcurrent
    rw [hkey.1] at hr
    exact hgone.2.2 r hr (hgen.trans hkey.2.2.1)
  · intro u r ls' s' hr hrun' hls
    exact run_epoch hrun' hls hr

/-! ## Sample runs -/

def sampleOptions : Options := ⟨8, 2, 100, 500⟩

def sampleBegun : State :=
  { start with core := start.core.resume }.beginReplay sampleOptions.clamp 1 5

theorem sampleBegun_reachable :
    Run (Step sampleOptions.clamp) start [.resume, .beginReplay 1 5] sampleBegun :=
  .cons .resume (.single (.beginReplay 1 5))

theorem recovery_scheduling_begun :
    sampleBegun.core.activeReplays = sampleBegun.core.activeSessions ∧
      sampleBegun.core.activeReplays ≤ sampleOptions.clamp.maxActiveReplays :=
  (recovery_scheduling sampleOptions sampleBegun_reachable).1

/-- A `Resume` of the running recovery clears the sessions, and user 1 begins again under epoch 3. -/
def sampleResumed : State :=
  { sampleBegun with core := sampleBegun.core.resume }.beginReplay sampleOptions.clamp 1 3

theorem resume_moves_epoch_back :
    Run (Step sampleOptions.clamp) start [.resume, .beginReplay 1 5] sampleBegun ∧
      Run (Step sampleOptions.clamp) sampleBegun [.resume, .beginReplay 1 3] sampleResumed ∧
      (sampleBegun.core.sessions.lookup 1).map ReplayState.epoch = some 5 ∧
      (sampleResumed.core.sessions.lookup 1).map ReplayState.epoch = some 3 :=
  ⟨sampleBegun_reachable, .cons .resume (.single (.beginReplay 1 3)), rfl, rfl⟩

end TinyImx.Gateway.Recovery
