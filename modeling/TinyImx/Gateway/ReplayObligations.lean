import TinyImx.Gateway.ReplayAdmission
import TinyImx.Lib.Run

/-!
# Replay obligations are neither lost nor doubled

A lease is tied to its entry by user, epoch, generation and attempt.  Generations are never used
twice, and attempts only grow within one, so at most one lease matches an entry and a lease of a
former generation matches none.
-/

namespace TinyImx.Gateway.ReplayAdmission

variable {s s' : State} {l : Label} {u i j now : ℕ} {e e' : ReplayEntry}

/-! ## What a step does to the entries -/

def ReplayEntry.token (e : ReplayEntry) (u : ℕ) : Token := ⟨u, e.epoch, e.generation, e.attempt⟩

/-- An entry with the obligation of `e`: the same epoch, admitted by the same `Ensure`. -/
def ReplayEntry.Same (e e' : ReplayEntry) : Prop :=
  e'.epoch = e.epoch ∧ e'.generation = e.generation

theorem ReplayEntry.Same.refl (e : ReplayEntry) : e.Same e := ⟨rfl, rfl⟩

theorem ReplayEntry.Same.trans {e'' : ReplayEntry} (h : e.Same e') (h' : e'.Same e'') : e.Same e'' :=
  ⟨h'.1.trans h.1, h'.2.trans h.2⟩

def ReplayEntry.claimed (e : ReplayEntry) : ReplayEntry :=
  { e with attempt := e.attempt + 1, inFlight := true }

/-- What a claim of the entry `e` of `u` does. -/
structure Claimed (s : State) (u : ℕ) (e : ReplayEntry) (s' : State) : Prop where
  found : s.entries.lookup u = some e
  entry : ∀ v, s'.entries.lookup v = if v = u then some e.claimed else s.entries.lookup v
  issued : s'.issued = s.issued + 1
  new : s'.leases s.issued = ⟨e.claimed.token u, .armed⟩
  old : ∀ i, i ≠ s.issued → s'.leases i = s.leases i
  next : s'.nextGeneration = s.nextGeneration
  stopped : s'.stopped = s.stopped

theorem claimed_of_claimLocked (h : s.claimLocked u now = some s') : ∃ e, Claimed s u e s' := by
  unfold State.claimLocked at h
  split at h
  · cases h
  · next e he =>
    split at h
    · cases h
    · cases h
      refine ⟨e, he, ?_, rfl, Function.update_self .., fun i hi => Function.update_of_ne hi .., rfl, rfl⟩
      intro v
      split
      · next hv =>
        subst hv
        exact Finmap.lookup_insert _
      · next hv => exact Finmap.lookup_insert_of_ne _ hv

theorem takeLoop_keeps {P : State → Prop} (hcursor : ∀ s u, P s → P { s with scanCursor := u })
    (hclaim : ∀ s u now s', P s → s.claimLocked u now = some s' → P s') (now submit : ℕ)
    (users : List ℕ) (taken : ℕ) (s : State) (h : P s) : P (s.takeLoop now submit users taken) := by
  induction users generalizing taken s with
  | nil => exact h
  | cons u users ih =>
    unfold State.takeLoop
    grind

theorem takeDue_keeps {P : State → Prop} (hcursor : ∀ s u, P s → P { s with scanCursor := u })
    (hclaim : ∀ s u now s', P s → s.claimLocked u now = some s' → P s') (scan submit now : ℕ)
    (h : P s) : P (s.takeDue scan submit now) := by
  unfold State.takeDue
  split
  · exact h
  · exact takeLoop_keeps hcursor hclaim now submit _ _ s h

theorem claim_keeps {P : State → Prop}
    (hclaim : ∀ s u now s', P s → s.claimLocked u now = some s' → P s') (u epoch now : ℕ)
    (h : P s) : P (s.claim u epoch now) := by
  unfold State.claim
  split
  · exact h
  · split
    · exact h
    · cases hs' : s.claimLocked u now with
      | none => exact h
      | some s' => exact hclaim s u now s' h hs'

theorem claimLocked_same (h : s.claimLocked u now = some s') (v : ℕ) :
    (∀ e, s.entries.lookup v = some e → ∃ e', s'.entries.lookup v = some e' ∧ e.Same e') ∧
      ∀ e', s'.entries.lookup v = some e' → ∃ e, s.entries.lookup v = some e ∧ e.Same e' := by
  obtain ⟨e, hc⟩ := claimed_of_claimLocked h
  rw [hc.entry]
  by_cases hv : v = u
  · subst hv
    rw [if_pos rfl, hc.found]
    constructor
    · rintro e₁ ⟨⟩
      exact ⟨_, rfl, rfl, rfl⟩
    · rintro e₁ ⟨⟩
      exact ⟨e, rfl, rfl, rfl⟩
  · rw [if_neg hv]
    exact ⟨fun e₁ h₁ => ⟨e₁, h₁, .refl e₁⟩, fun e₁ h₁ => ⟨e₁, h₁, .refl e₁⟩⟩

/-- What a step may do to the entry of `u`: nothing that ends the obligation, unless it settles the
lease of the entry, retires its epoch, stops, or admits a greater epoch. -/
def Ended (s : State) (l : Label) (u : ℕ) (e : ReplayEntry) : Prop :=
  (∃ i, l = .started i ∧ (s.leases i).token.userId = u ∧ Matches (s.leases i).token e) ∨
    l = .retire u e.epoch ∨ l = .stop ∨ ∃ epoch now, l = .ensure u epoch now ∧ e.epoch < epoch

theorem ensure_cases (s : State) (u epoch now : ℕ) :
    s.ensure u epoch now = (false, s) ∨
      (s.stopped = false ∧ (∀ e, s.entries.lookup u = some e → e.epoch < epoch) ∧
        s.ensure u epoch now = (true,
          { s with
            entries := s.entries.insert u ⟨epoch, s.nextGeneration, 0, 0, now, false⟩
            nextGeneration := s.nextGeneration + 1 })) := by
  unfold State.ensure
  split
  · exact .inl rfl
  · next hok =>
    split
    · exact .inl rfl
    · next hnew =>
      simp only [not_or] at hok
      refine .inr ⟨by simpa using hok.2.2, ?_, rfl⟩
      intro e he
      simpa [he] using hnew

theorem started_entries (s : State) (i : ℕ) :
    (s.started i).entries = s.entries ∨
      (∃ e, s.entries.lookup (s.leases i).token.userId = some e ∧ Matches (s.leases i).token e) ∧
        (s.started i).entries = s.entries.erase (s.leases i).token.userId := by
  unfold State.started
  dsimp only
  split
  · next h =>
    obtain ⟨e, he, hm⟩ := (Option.any_eq_true _ _).1 h.2
    exact .inr ⟨⟨e, he, of_decide_eq_true hm⟩, rfl⟩
  · exact .inl rfl

theorem abandoned_entries (s : State) (i now : ℕ) :
    (s.abandoned i now).entries = s.entries ∨
      ∃ e, s.entries.lookup (s.leases i).token.userId = some e ∧ Matches (s.leases i).token e ∧
        (s.abandoned i now).entries =
          s.entries.insert (s.leases i).token.userId (e.rearm (s.leases i).token now) := by
  unfold State.abandoned
  dsimp only
  split
  · exact .inl rfl
  · next e he =>
    split
    · next h => exact .inr ⟨e, he, h.2, rfl⟩
    · exact .inl rfl

/-- Each entry survives a step, unless the step may end it. -/
theorem step_keeps_entry (h : Step s l s') (he : s.entries.lookup u = some e) :
    (∃ e', s'.entries.lookup u = some e' ∧ e.Same e') ∨ Ended s l u e := by
  have hkept : ∃ e', s.entries.lookup u = some e' ∧ e.Same e' := ⟨e, he, .refl e⟩
  have hclaim : ∀ (s₁ : State) (v now : ℕ) (s₂ : State), (∃ e', s₁.entries.lookup u = some e' ∧ e.Same e') →
      s₁.claimLocked v now = some s₂ → ∃ e', s₂.entries.lookup u = some e' ∧ e.Same e' := by
    rintro s₁ v now s₂ ⟨e₁, h₁, hsame⟩ hs₂
    obtain ⟨e₂, h₂, hsame'⟩ := (claimLocked_same hs₂ u).1 e₁ h₁
    exact ⟨e₂, h₂, hsame.trans hsame'⟩
  cases h with
  | ensure v epoch now =>
    rcases ensure_cases s v epoch now with heq | ⟨-, hless, heq⟩
    · rw [heq]
      exact .inl hkept
    · rw [heq]
      by_cases huv : u = v
      · subst huv
        exact .inr (.inr (.inr (.inr ⟨epoch, now, rfl, hless e he⟩)))
      · refine .inl ⟨e, ?_, .refl e⟩
        rw [← he]
        exact Finmap.lookup_insert_of_ne _ huv
  | claim v epoch now => exact .inl (claim_keeps hclaim v epoch now hkept)
  | takeDue scan submit now => exact .inl (takeDue_keeps (fun _ _ h => h) hclaim scan submit now hkept)
  | markStarted i _ =>
    refine .inl ?_
    unfold State.markSettled
    split <;> exact hkept
  | started i _ =>
    rcases started_entries s i with heq | ⟨⟨e₁, he₁, hm⟩, heq⟩
    · rw [heq]
      exact .inl hkept
    · by_cases hu : u = (s.leases i).token.userId
      · rw [← hu, he] at he₁
        cases he₁
        exact .inr (.inl ⟨i, rfl, hu.symm, hm⟩)
      · rw [heq, Finmap.lookup_erase_ne hu]
        exact .inl hkept
  | destroy i _ =>
    refine .inl ?_
    unfold State.markSettled
    split <;> exact hkept
  | abandoned i now _ =>
    rcases abandoned_entries s i now with heq | ⟨e₁, he₁, -, heq⟩
    · rw [heq]
      exact .inl hkept
    · rw [heq]
      by_cases hu : u = (s.leases i).token.userId
      · rw [← hu, he] at he₁
        cases he₁
        rw [← hu, Finmap.lookup_insert]
        exact .inl ⟨_, rfl, rfl, rfl⟩
      · rw [Finmap.lookup_insert_of_ne _ hu]
        exact .inl hkept
  | retire v epoch =>
    unfold State.retire
    split
    · next hv =>
      by_cases huv : u = v
      · subst huv
        have hepoch : e.epoch = epoch := by simpa [he] using hv
        exact .inr (.inr (.inl (by rw [hepoch])))
      · refine .inl ⟨e, ?_, .refl e⟩
        rw [← he]
        exact Finmap.lookup_erase_ne huv
    · exact .inl hkept
  | stop => exact .inr (.inr (.inr (.inl rfl)))
  | resume => exact .inl hkept

/-- An entry after a step is one from before it, or a new one under the next generation. -/
theorem step_entry (h : Step s l s') (he' : s'.entries.lookup u = some e') :
    (∃ e, s.entries.lookup u = some e ∧ e.Same e') ∨ e'.generation = s.nextGeneration := by
  have hkept : ∀ e', s.entries.lookup u = some e' → ∃ e, s.entries.lookup u = some e ∧ e.Same e' :=
    fun e' h => ⟨e', h, .refl e'⟩
  have hclaim : ∀ (s₁ : State) (v now : ℕ) (s₂ : State),
      (∀ e', s₁.entries.lookup u = some e' → ∃ e, s.entries.lookup u = some e ∧ e.Same e') →
      s₁.claimLocked v now = some s₂ →
      ∀ e', s₂.entries.lookup u = some e' → ∃ e, s.entries.lookup u = some e ∧ e.Same e' := by
    intro s₁ v now s₂ h₁ hs₂ e₂ he₂
    obtain ⟨e₁, he₁, hsame⟩ := (claimLocked_same hs₂ u).2 e₂ he₂
    obtain ⟨e, he, hsame'⟩ := h₁ e₁ he₁
    exact ⟨e, he, hsame'.trans hsame⟩
  have herase : ∀ v, (s.entries.erase v).lookup u = some e' → s.entries.lookup u = some e' := by
    intro v hv
    by_cases huv : u = v
    · subst huv
      rw [Finmap.lookup_erase] at hv
      cases hv
    · rwa [Finmap.lookup_erase_ne huv] at hv
  cases h with
  | ensure v epoch now =>
    rcases ensure_cases s v epoch now with heq | ⟨-, -, heq⟩
    · rw [heq] at he'
      exact .inl (hkept e' he')
    · rw [heq] at he'
      by_cases huv : u = v
      · subst huv
        rw [Finmap.lookup_insert] at he'
        cases he'
        exact .inr rfl
      · rw [Finmap.lookup_insert_of_ne _ huv] at he'
        exact .inl (hkept e' he')
  | claim v epoch now => exact .inl (claim_keeps hclaim v epoch now hkept e' he')
  | takeDue scan submit now =>
    exact .inl (takeDue_keeps (fun _ _ h => h) hclaim scan submit now hkept e' he')
  | markStarted i _ =>
    unfold State.markSettled at he'
    split at he' <;> exact .inl (hkept e' he')
  | started i _ =>
    rcases started_entries s i with heq | ⟨-, heq⟩
    · rw [heq] at he'
      exact .inl (hkept e' he')
    · rw [heq] at he'
      exact .inl (hkept e' (herase _ he'))
  | destroy i _ =>
    unfold State.markSettled at he'
    split at he' <;> exact .inl (hkept e' he')
  | abandoned i now _ =>
    rcases abandoned_entries s i now with heq | ⟨e₁, he₁, -, heq⟩
    · rw [heq] at he'
      exact .inl (hkept e' he')
    · rw [heq] at he'
      by_cases hu : u = (s.leases i).token.userId
      · rw [← hu, Finmap.lookup_insert] at he'
        cases he'
        rw [hu]
        exact .inl ⟨e₁, he₁, rfl, rfl⟩
      · rw [Finmap.lookup_insert_of_ne _ hu] at he'
        exact .inl (hkept e' he')
  | retire v epoch =>
    unfold State.retire at he'
    split at he'
    · exact .inl (hkept e' (herase v he'))
    · exact .inl (hkept e' he')
  | stop => simp [State.stop] at he'
  | resume => exact .inl (hkept e' he')

/-! ## The leases of an entry -/

structure Sound (s : State) : Prop where
  lease : ∀ i < s.issued, (s.leases i).token.generation < s.nextGeneration
  entry : ∀ u e, s.entries.lookup u = some e → e.generation < s.nextGeneration
  bound : ∀ u e, s.entries.lookup u = some e → ∀ i < s.issued, (s.leases i).token.userId = u →
    (s.leases i).token.generation = e.generation →
    (s.leases i).token.epoch = e.epoch ∧ (s.leases i).token.attempt ≤ e.attempt
  distinct : ∀ i < s.issued, ∀ j < s.issued,
    (s.leases i).token.userId = (s.leases j).token.userId →
    (s.leases i).token.generation = (s.leases j).token.generation →
    (s.leases i).token.attempt = (s.leases j).token.attempt → i = j
  owner : ∀ u e, s.entries.lookup u = some e → e.inFlight = true →
    ∃ i < s.issued, (s.leases i).token = e.token u ∧ (s.leases i).status ≠ .settled
  free : ∀ i, s.issued ≤ i → (s.leases i).status = .settled
  idle : s.stopped = true → s.entries = ∅

theorem Sound.start : Sound start where
  lease _ hi := absurd hi (Nat.not_lt_zero _)
  entry u e he := by simp [ReplayAdmission.start] at he
  bound u e he := by simp [ReplayAdmission.start] at he
  distinct _ hi := absurd hi (Nat.not_lt_zero _)
  owner u e he := by simp [ReplayAdmission.start] at he
  free _ _ := rfl
  idle _ := rfl

theorem Sound.matches_unique (h : Sound s) (hi : i < s.issued) (hj : j < s.issued)
    (hij : (s.leases i).token.userId = (s.leases j).token.userId) (hmi : Matches (s.leases i).token e)
    (hmj : Matches (s.leases j).token e) : i = j :=
  h.distinct i hi j hj hij (hmi.2.1.trans hmj.2.1.symm) (hmi.2.2.1.trans hmj.2.2.1.symm)

theorem Sound.update (h : Sound s) (hissued : s'.issued = s.issued)
    (hnext : s'.nextGeneration = s.nextGeneration)
    (htoken : ∀ i, (s'.leases i).token = (s.leases i).token)
    (hfree : ∀ i, s.issued ≤ i → (s'.leases i).status = .settled)
    (hentry : ∀ u e', s'.entries.lookup u = some e' →
      ∃ e, s.entries.lookup u = some e ∧ e.Same e' ∧ e'.attempt = e.attempt)
    (howner : ∀ u e, s'.entries.lookup u = some e → e.inFlight = true →
      ∃ i < s.issued, (s.leases i).token = e.token u ∧ (s'.leases i).status ≠ .settled)
    (hidle : s'.stopped = true → s'.entries = ∅) : Sound s' where
  lease i hi := by
    rw [htoken, hnext]
    exact h.lease i (hissued ▸ hi)
  entry u e' he' := by
    obtain ⟨e, he, hsame, -⟩ := hentry u e' he'
    rw [hsame.2, hnext]
    exact h.entry u e he
  bound u e' he' i hi hu hgen := by
    obtain ⟨e, he, hsame, hattempt⟩ := hentry u e' he'
    rw [htoken] at hu hgen ⊢
    rw [hsame.1, hattempt]
    exact h.bound u e he i (hissued ▸ hi) hu (hgen.trans hsame.2)
  distinct i hi j hj := by
    rw [htoken, htoken]
    exact h.distinct i (hissued ▸ hi) j (hissued ▸ hj)
  owner u e he hflight := by
    obtain ⟨i, hi, htok, hstatus⟩ := howner u e he hflight
    exact ⟨i, hissued ▸ hi, (htoken i).trans htok, hstatus⟩
  free i hi := hfree i (hissued ▸ hi)
  idle := hidle

theorem Sound.forget (h : Sound s) (hissued : s'.issued = s.issued)
    (hnext : s'.nextGeneration = s.nextGeneration) (hleases : s'.leases = s.leases)
    (hentry : ∀ u e, s'.entries.lookup u = some e → s.entries.lookup u = some e)
    (hidle : s'.stopped = true → s'.entries = ∅) : Sound s' := by
  refine h.update hissued hnext (fun i => by rw [hleases]) (fun i hi => by rw [hleases]; exact h.free i hi)
    (fun u e he => ⟨e, hentry u e he, .refl e, rfl⟩) (fun u e he hflight => ?_) hidle
  obtain ⟨i, hi, htoken, hstatus⟩ := h.owner u e (hentry u e he) hflight
  exact ⟨i, hi, htoken, by rwa [hleases]⟩

theorem lookup_of_erase {m : Finmap fun _ : ℕ => ReplayEntry} {u v : ℕ}
    (h : (m.erase v).lookup u = some e) : u ≠ v ∧ m.lookup u = some e := by
  by_cases huv : u = v
  · subst huv
    simp_all
  · exact ⟨huv, by rwa [Finmap.lookup_erase_ne huv] at h⟩

theorem Sound.ensure (h : Sound s) (u epoch now : ℕ) : Sound (s.ensure u epoch now).2 := by
  rcases ensure_cases s u epoch now with heq | ⟨hstop, -, heq⟩
  · rw [heq]
    exact h
  rw [heq]
  have hcases : ∀ v e, (s.entries.insert u ⟨epoch, s.nextGeneration, 0, 0, now, false⟩).lookup v =
      some e → e = ⟨epoch, s.nextGeneration, 0, 0, now, false⟩ ∨ s.entries.lookup v = some e := by
    intro v e he
    by_cases hv : v = u
    · subst hv
      rw [Finmap.lookup_insert] at he
      exact .inl (Option.some.inj he).symm
    · rw [Finmap.lookup_insert_of_ne _ hv] at he
      exact .inr he
  exact {
    lease := fun i hi => Nat.lt_succ_of_lt (h.lease i hi)
    entry := by
      intro v e he
      rcases hcases v e he with rfl | he
      · exact Nat.lt_succ_self _
      · exact Nat.lt_succ_of_lt (h.entry v e he)
    bound := by
      intro v e he i hi hu hgen
      rcases hcases v e he with rfl | he
      · exact absurd hgen (Nat.ne_of_lt (h.lease i hi))
      · exact h.bound v e he i hi hu hgen
    distinct := h.distinct
    owner := by
      intro v e he hflight
      rcases hcases v e he with rfl | he
      · cases hflight
      · exact h.owner v e he hflight
    free := h.free
    idle := fun hs => by
      rw [hstop] at hs
      cases hs }

theorem Claimed.lookup_cases (hc : Claimed s u e s') {v : ℕ} (he' : s'.entries.lookup v = some e') :
    (v = u ∧ e' = e.claimed) ∨ (v ≠ u ∧ s.entries.lookup v = some e') := by
  rw [hc.entry] at he'
  grind

theorem Claimed.lease_cases (hc : Claimed s u e s') (hi : i < s'.issued) :
    (i = s.issued ∧ s'.leases i = ⟨e.claimed.token u, .armed⟩) ∨
      (i < s.issued ∧ s'.leases i = s.leases i) := by
  rw [hc.issued] at hi
  by_cases heq : i = s.issued
  · exact .inl ⟨heq, heq ▸ hc.new⟩
  · exact .inr ⟨by omega, hc.old i heq⟩

theorem Sound.claimLocked (h : Sound s) (hs' : s.claimLocked u now = some s') : Sound s' := by
  obtain ⟨e, hc⟩ := claimed_of_claimLocked hs'
  -- the attempts of the leases issued before are all smaller than the new one
  have hnew : ∀ i, i < s.issued → (s.leases i).token.userId = u →
      (s.leases i).token.generation = e.generation → (s.leases i).token.attempt ≠ e.attempt + 1 := by
    intro i hi hu hgen
    have := (h.bound u e hc.found i hi hu hgen).2
    omega
  exact {
    lease := by
      intro i hi
      rw [hc.next]
      rcases hc.lease_cases hi with ⟨-, heq⟩ | ⟨hi, heq⟩
      · rw [heq]
        exact h.entry u e hc.found
      · rw [heq]
        exact h.lease i hi
    entry := by
      intro v e' he'
      rw [hc.next]
      rcases hc.lookup_cases he' with ⟨-, rfl⟩ | ⟨-, he'⟩
      · exact h.entry u e hc.found
      · exact h.entry v e' he'
    bound := by
      intro v e' he' i hi hu hgen
      rcases hc.lease_cases hi with ⟨-, heq⟩ | ⟨hi, heq⟩
      · rw [heq] at hu ⊢
        rcases hc.lookup_cases he' with ⟨-, rfl⟩ | ⟨hv, -⟩
        · exact ⟨rfl, le_refl _⟩
        · exact absurd hu.symm hv
      · rw [heq] at hu hgen ⊢
        rcases hc.lookup_cases he' with ⟨rfl, rfl⟩ | ⟨-, he'⟩
        · have := h.bound v e hc.found i hi hu hgen
          exact ⟨this.1, Nat.le_succ_of_le this.2⟩
        · exact h.bound v e' he' i hi hu hgen
    distinct := by
      intro i hi j hj huser hgen hattempt
      rcases hc.lease_cases hi with ⟨hi, heq⟩ | ⟨hi, heq⟩
      · rcases hc.lease_cases hj with ⟨hj, heq'⟩ | ⟨hj, heq'⟩
        · rw [hi, hj]
        · rw [heq, heq'] at huser hgen hattempt
          exact absurd hattempt.symm (hnew j hj huser.symm hgen.symm)
      · rcases hc.lease_cases hj with ⟨hj, heq'⟩ | ⟨hj, heq'⟩
        · rw [heq, heq'] at huser hgen hattempt
          exact absurd hattempt (hnew i hi huser hgen)
        · rw [heq, heq'] at huser hgen hattempt
          exact h.distinct i hi j hj huser hgen hattempt
    owner := by
      intro v e' he' hflight
      rw [hc.issued]
      rcases hc.lookup_cases he' with ⟨rfl, rfl⟩ | ⟨-, he'⟩
      · refine ⟨s.issued, Nat.lt_succ_self _, ?_⟩
        rw [hc.new]
        exact ⟨rfl, Status.noConfusion⟩
      · obtain ⟨i, hi, htoken, hstatus⟩ := h.owner v e' he' hflight
        refine ⟨i, Nat.lt_succ_of_lt hi, ?_⟩
        rw [hc.old i (Nat.ne_of_lt hi)]
        exact ⟨htoken, hstatus⟩
    free := by
      intro i hi
      rw [hc.issued] at hi
      rw [hc.old i (by omega)]
      exact h.free i (by omega)
    idle := by
      intro hs
      rw [hc.stopped] at hs
      have hfound := hc.found
      rw [h.idle hs] at hfound
      simp at hfound }

theorem Sound.settle (h : Sound s) (entries : Finmap fun _ : ℕ => ReplayEntry) {status : Status}
    (hi : (s.leases i).status ≠ .settled)
    (hentry : ∀ u e', entries.lookup u = some e' →
      ∃ e, s.entries.lookup u = some e ∧ e.Same e' ∧ e'.attempt = e.attempt)
    (hkept : ∀ u e, entries.lookup u = some e → e.inFlight = true → s.entries.lookup u = some e ∧
      (status = .settled → (s.leases i).token ≠ e.token u))
    (hidle : s.stopped = true → entries = ∅) : Sound { s.settle i status with entries := entries } := by
  have hissued : i < s.issued := by
    by_contra hge
    exact hi (h.free i (by omega))
  have htoken : ∀ j, ((s.settle i status).leases j).token = (s.leases j).token := by
    intro j
    by_cases hj : j = i
    · subst hj
      simp [State.settle]
    · simp [State.settle, hj]
  have hother : ∀ j, j ≠ i → (s.settle i status).leases j = s.leases j :=
    fun j hj => Function.update_of_ne hj _ _
  refine h.update rfl rfl htoken (fun j hj => ?_) hentry (fun u e he hflight => ?_) hidle
  · show ((s.settle i status).leases j).status = .settled
    rw [hother j (by omega)]
    exact h.free j hj
  · obtain ⟨he, hne⟩ := hkept u e he hflight
    obtain ⟨j, hj, htok, hstatus⟩ := h.owner u e he hflight
    refine ⟨j, hj, htok, ?_⟩
    show ((s.settle i status).leases j).status ≠ .settled
    by_cases hji : j = i
    · subst hji
      intro hset
      exact hne (by simpa [State.settle] using hset) htok
    · rw [hother j hji]
      exact hstatus

theorem Sound.markSettled (h : Sound s) (i : ℕ) {status : Status} (hstatus : status ≠ .settled) :
    Sound (s.markSettled i status) := by
  unfold State.markSettled
  split
  · next harmed =>
    have hi : (s.leases i).status ≠ .settled := by
      rw [harmed]
      exact Status.noConfusion
    exact h.settle s.entries hi (fun u e he => ⟨e, he, .refl e, rfl⟩)
      (fun u e he _ => ⟨he, fun hs => absurd hs hstatus⟩) h.idle
  · exact h

theorem Sound.settle_unmatched (h : Sound s) (hi : (s.leases i).status ≠ .settled)
    (hno : ∀ e, s.entries.lookup (s.leases i).token.userId = some e →
      ¬Matches (s.leases i).token e) : Sound (s.settle i .settled) := by
  refine h.settle s.entries hi (fun u e he => ⟨e, he, .refl e, rfl⟩) (fun u e he hflight => ⟨he, ?_⟩)
    h.idle
  intro _ htoken
  have huser : (s.leases i).token.userId = u := by rw [htoken, ReplayEntry.token]
  refine hno e (huser ▸ he) ?_
  rw [htoken]
  exact ⟨rfl, rfl, rfl, hflight⟩

theorem Sound.unmatched_of_stopped (h : Sound s) {t : Token}
    (hno : ¬(s.stopped = false ∧ (s.entries.lookup t.userId).any (Matches t ·) = true)) :
    ∀ e, s.entries.lookup t.userId = some e → ¬Matches t e := by
  intro e he hm
  cases hs : s.stopped with
  | false => exact hno ⟨hs, by simpa [he] using hm⟩
  | true =>
    rw [h.idle hs] at he
    simp at he

theorem Sound.started (h : Sound s) (hi : (s.leases i).status ≠ .settled) : Sound (s.started i) := by
  unfold State.started
  dsimp only
  split
  · next hm =>
    obtain ⟨e, he, hmatch⟩ := (Option.any_eq_true _ _).1 hm.2
    refine h.settle _ hi (fun u e' he' => ⟨e', (lookup_of_erase he').2, .refl e', rfl⟩)
      (fun u e' he' _ => ⟨(lookup_of_erase he').2, fun _ htoken => ?_⟩) (fun hs => ?_)
    · exact (lookup_of_erase he').1 (by rw [htoken, ReplayEntry.token])
    · rw [hm.1] at hs
      cases hs
  · next hm => exact h.settle_unmatched hi (h.unmatched_of_stopped hm)

theorem Sound.abandoned (h : Sound s) (hi : (s.leases i).status ≠ .settled) (now : ℕ) :
    Sound (s.abandoned i now) := by
  unfold State.abandoned
  dsimp only
  split
  · next hnone =>
    refine h.settle_unmatched hi (fun e he => ?_)
    rw [hnone] at he
    cases he
  · next e he =>
    split
    · next hm =>
      have hcases : ∀ u e', (s.entries.insert (s.leases i).token.userId
          (e.rearm (s.leases i).token now)).lookup u = some e' →
          (u = (s.leases i).token.userId ∧ e' = e.rearm (s.leases i).token now) ∨
            (u ≠ (s.leases i).token.userId ∧ s.entries.lookup u = some e') := by
        intro u e' he'
        by_cases hu : u = (s.leases i).token.userId
        · rw [hu, Finmap.lookup_insert] at he'
          exact .inl ⟨hu, (Option.some.inj he').symm⟩
        · simp_all
      refine h.settle _ hi (fun u e' he' => ?_) (fun u e' he' hflight => ?_) (fun hs => ?_)
      · rcases hcases u e' he' with ⟨rfl, rfl⟩ | ⟨-, he'⟩
        · exact ⟨e, he, ⟨rfl, rfl⟩, rfl⟩
        · exact ⟨e', he', .refl e', rfl⟩
      · rcases hcases u e' he' with ⟨-, rfl⟩ | ⟨hu, he'⟩
        · cases hflight
        · exact ⟨he', fun _ htoken => hu (by rw [htoken, ReplayEntry.token])⟩
      · rw [hm.1] at hs
        cases hs
    · next hm =>
      refine h.settle_unmatched hi (h.unmatched_of_stopped fun hany => hm ⟨hany.1, ?_⟩)
      simpa [he] using hany.2

theorem Sound.step (h : Sound s) (hstep : Step s l s') : Sound s' := by
  have hcursor : ∀ (s : State) (u : ℕ), Sound s → Sound { s with scanCursor := u } :=
    fun s u h => h.forget rfl rfl rfl (fun _ _ he => he) h.idle
  have hclaim : ∀ (s : State) (u now : ℕ) (s' : State), Sound s → s.claimLocked u now = some s' →
      Sound s' := fun _ _ _ _ h hs' => h.claimLocked hs'
  cases hstep with
  | ensure u epoch now => exact h.ensure u epoch now
  | claim u epoch now => exact claim_keeps hclaim u epoch now h
  | takeDue scan submit now => exact takeDue_keeps hcursor hclaim scan submit now h
  | markStarted i _ => exact h.markSettled i Status.noConfusion
  | started i hi => exact h.started (by rw [hi]; exact Status.noConfusion)
  | destroy i _ => exact h.markSettled i Status.noConfusion
  | abandoned i now hi => exact h.abandoned (by rw [hi]; exact Status.noConfusion) now
  | retire u epoch =>
    unfold State.retire
    split
    · refine h.forget rfl rfl rfl (fun v e he => (lookup_of_erase he).2) (fun hs => ?_)
      show s.entries.erase u = ∅
      rw [h.idle hs]
      rfl
    · exact h
  | stop => exact h.forget rfl rfl rfl (fun u e he => by simp [State.stop] at he) (fun _ => rfl)
  | resume => exact h.forget rfl rfl rfl (fun _ _ he => he) (fun hs => by cases hs)

/-! ## Leases of former generations -/

/-- What only grows along a run: the leases, which keep their tokens, and the generations. -/
structure Later (s s' : State) : Prop where
  issued : s.issued ≤ s'.issued
  next : s.nextGeneration ≤ s'.nextGeneration
  token : ∀ i < s.issued, (s'.leases i).token = (s.leases i).token

theorem Later.refl (s : State) : Later s s := ⟨le_refl _, le_refl _, fun _ _ => rfl⟩

theorem Later.trans {s₁ s₂ s₃ : State} (h : Later s₁ s₂) (h' : Later s₂ s₃) : Later s₁ s₃ :=
  ⟨h.issued.trans h'.issued, h.next.trans h'.next,
    fun i hi => (h'.token i (hi.trans_le h.issued)).trans (h.token i hi)⟩

theorem Later.settle (s : State) (i : ℕ) (status : Status)
    (entries : Finmap fun _ : ℕ => ReplayEntry) :
    Later s { s.settle i status with entries := entries } := by
  refine ⟨le_refl _, le_refl _, fun j _ => ?_⟩
  by_cases hj : j = i
  · subst hj
    simp [State.settle]
  · simp [State.settle, hj]

theorem Later.step (h : Step s l s') : Later s s' := by
  have hclaim : ∀ (s₁ : State) (u now : ℕ) (s₂ : State), Later s s₁ → s₁.claimLocked u now = some s₂ →
      Later s s₂ := by
    intro s₁ u now s₂ h₁ hs₂
    obtain ⟨e, hc⟩ := claimed_of_claimLocked hs₂
    refine h₁.trans ⟨by rw [hc.issued]; omega, hc.next.ge, fun i hi => ?_⟩
    rw [hc.old i (Nat.ne_of_lt hi)]
  have hcursor : ∀ (s₁ : State) (u : ℕ), Later s s₁ → Later s { s₁ with scanCursor := u } :=
    fun s₁ u h₁ => h₁.trans ⟨le_refl _, le_refl _, fun _ _ => rfl⟩
  cases h with
  | ensure u epoch now =>
    rcases ensure_cases s u epoch now with heq | ⟨-, -, heq⟩
    · rw [heq]
      exact .refl s
    · rw [heq]
      exact ⟨le_refl _, Nat.le_succ _, fun _ _ => rfl⟩
  | claim u epoch now => exact claim_keeps hclaim u epoch now (.refl s)
  | takeDue scan submit now => exact takeDue_keeps hcursor hclaim scan submit now (.refl s)
  | markStarted i _ =>
    unfold State.markSettled
    split
    · exact .settle s i _ s.entries
    · exact .refl s
  | started i _ =>
    unfold State.started
    dsimp only
    split
    · exact .settle s i _ _
    · exact .settle s i _ s.entries
  | destroy i _ =>
    unfold State.markSettled
    split
    · exact .settle s i _ s.entries
    · exact .refl s
  | abandoned i now _ =>
    unfold State.abandoned
    dsimp only
    split
    · exact .settle s i _ s.entries
    · split
      · exact .settle s i _ _
      · exact .settle s i _ s.entries
  | retire u epoch =>
    unfold State.retire
    split <;> exact ⟨le_refl _, le_refl _, fun _ _ => rfl⟩
  | stop => exact ⟨le_refl _, le_refl _, fun _ _ => rfl⟩
  | resume => exact ⟨le_refl _, le_refl _, fun _ _ => rfl⟩

theorem Later.run {ls : List Label} (h : Run Step s ls s') : Later s s' :=
  Run.mono (I := fun _ => True) Later.refl Later.trans
    (fun _ _ _ _ hstep => ⟨trivial, Later.step hstep⟩) h trivial

/-- The steps after which no entry of `u` from before is left: an `Ensure` that admits a new one, a
`Retire` of its epoch, a `Stop`. -/
def Replaces (s : State) (u : ℕ) : Label → Prop
  | .ensure v epoch now => v = u ∧ (s.ensure v epoch now).1 = true
  | .retire v epoch => v = u ∧ ∀ e, s.entries.lookup u = some e → e.epoch = epoch
  | .stop => True
  | _ => False

theorem Replaces.fresh {s₁ : State} (hl : Replaces s u l) (h : Step s l s₁)
    (he : s₁.entries.lookup u = some e) : s.nextGeneration ≤ e.generation := by
  cases h with
  | ensure v epoch now =>
    obtain ⟨rfl, hnew⟩ := hl
    rcases ensure_cases s v epoch now with heq | ⟨-, -, heq⟩
    · rw [heq] at hnew
      cases hnew
    · rw [heq, Finmap.lookup_insert] at he
      cases he
      exact le_refl _
  | retire v epoch =>
    obtain ⟨rfl, hepoch⟩ := hl
    unfold State.retire at he
    split at he
    · exact absurd rfl (lookup_of_erase he).1
    · next hno => simp [he, hepoch e he] at hno
  | stop => simp [State.stop] at he
  | claim | takeDue | markStarted | started | destroy | abandoned | resume => exact hl.elim

theorem fresh_of_run {ls : List Label} {n : ℕ} (h : Run Step s ls s') (hn : n ≤ s.nextGeneration)
    (hs : ∀ e, s.entries.lookup u = some e → n ≤ e.generation) :
    ∀ e, s'.entries.lookup u = some e → n ≤ e.generation := by
  suffices hall : n ≤ s'.nextGeneration ∧ ∀ e, s'.entries.lookup u = some e → n ≤ e.generation from
    hall.2
  refine h.invariant (I := fun s => n ≤ s.nextGeneration ∧
    ∀ e, s.entries.lookup u = some e → n ≤ e.generation) (fun s₁ l s₂ h₁ hstep => ?_) ⟨hn, hs⟩
  refine ⟨h₁.1.trans (Later.step hstep).next, fun e he => ?_⟩
  rcases step_entry hstep he with ⟨e₁, he₁, hsame⟩ | heq
  · rw [hsame.2]
    exact h₁.2 e₁ he₁
  · rw [heq]
    exact h₁.1

theorem unmatched_settles_nothing
    (h : ∀ e, s.entries.lookup (s.leases i).token.userId = some e → ¬Matches (s.leases i).token e) :
    (s.started i).entries = s.entries ∧ (s.abandoned i now).entries = s.entries := by
  constructor
  · rcases started_entries s i with heq | ⟨⟨e, he, hm⟩, -⟩
    · exact heq
    · exact absurd hm (h e he)
  · rcases abandoned_entries s i now with heq | ⟨e, he, hm, -⟩
    · exact heq
    · exact absurd hm (h e he)

theorem abandoned_of_matches (hgo : s.stopped = false)
    (he : s.entries.lookup (s.leases i).token.userId = some e) (hm : Matches (s.leases i).token e) :
    (s.abandoned i now).entries =
      s.entries.insert (s.leases i).token.userId (e.rearm (s.leases i).token now) := by
  unfold State.abandoned
  simp_all

theorem rearm_spec (e : ReplayEntry) (t : Token) (now : ℕ) :
    (e.rearm t now).inFlight = false ∧ e.Same (e.rearm t now) ∧
      now + 250 ≤ (e.rearm t now).due ∧ (e.rearm t now).due ≤ now + 2125 := by
  refine ⟨rfl, ⟨rfl, rfl⟩, ?_⟩
  have hmod : ∀ n : ℕ, n % 126 ≤ 125 := fun n => by omega
  have hpow : 1 ≤ 2 ^ min e.deferrals 3 ∧ 2 ^ min e.deferrals 3 ≤ 2 ^ 3 :=
    ⟨Nat.one_le_two_pow, Nat.pow_le_pow_right (by omega) (by omega)⟩
  simp only [ReplayEntry.rearm, retryDelay]
  have := hmod (Nat.xor (Nat.xor (t.userId * 11400714819323198485 % 2 ^ 64)
    (t.generation * 6364136223846793005 % 2 ^ 64)) t.attempt)
  omega

/-- Obligations are neither lost nor doubled: an entry goes only by the start of its lease, a
`Retire` of its epoch, a `Stop` or an `Ensure` of a greater epoch; at most one lease matches it; while
it is in flight that lease has not settled, and dropping the lease makes the entry due again; and a
lease from before an entry was replaced never settles a later entry of its user. -/
theorem replay_obligations {ls : List Label} (hrun : Run Step start ls s) :
    (∀ l s' u e, Step s l s' → s.entries.lookup u = some e →
      (∃ e', s'.entries.lookup u = some e' ∧ e.Same e') ∨ Ended s l u e) ∧
    (∀ u e, s.entries.lookup u = some e → ∀ i < s.issued, ∀ j < s.issued,
      (s.leases i).token.userId = u → (s.leases j).token.userId = u →
      Matches (s.leases i).token e → Matches (s.leases j).token e → i = j) ∧
    (∀ u e, s.entries.lookup u = some e → e.inFlight = true → ∃ i < s.issued,
      (s.leases i).token.userId = u ∧ Matches (s.leases i).token e ∧
        (s.leases i).status ≠ .settled ∧
        ∀ now, (s.abandoned i now).entries =
          s.entries.insert u (e.rearm (s.leases i).token now)) ∧
    (∀ (e : ReplayEntry) t now, (e.rearm t now).inFlight = false ∧ e.Same (e.rearm t now) ∧
      now + 250 ≤ (e.rearm t now).due ∧ (e.rearm t now).due ≤ now + 2125) ∧
    ∀ u l s₁ ls' s', Step s l s₁ → Replaces s u l → Run Step s₁ ls' s' → ∀ i < s.issued,
      (s.leases i).token.userId = u → ∀ now,
      (s'.started i).entries = s'.entries ∧ (s'.abandoned i now).entries = s'.entries := by
  have h : Sound s := hrun.invariant (fun _ _ _ h hstep => h.step hstep) .start
  refine ⟨fun l s' u e hstep he => step_keeps_entry hstep he, ?_, ?_, rearm_spec, ?_⟩
  · intro u e _ i hi j hj hui huj hmi hmj
    exact h.matches_unique hi hj (hui.trans huj.symm) hmi hmj
  · intro u e he hflight
    obtain ⟨i, hi, htoken, hstatus⟩ := h.owner u e he hflight
    have huser : (s.leases i).token.userId = u := by rw [htoken, ReplayEntry.token]
    have hm : Matches (s.leases i).token e := by
      rw [htoken]
      exact ⟨rfl, rfl, rfl, hflight⟩
    have hgo : s.stopped = false := by
      cases hs : s.stopped with
      | false => rfl
      | true =>
        rw [h.idle hs] at he
        simp at he
    refine ⟨i, hi, huser, hm, hstatus, fun now => ?_⟩
    have he' : s.entries.lookup (s.leases i).token.userId = some e := huser ▸ he
    rw [← huser]
    exact abandoned_of_matches hgo he' hm
  · intro u l s₁ ls' s' hstep hl hrun' i hi huser now
    have hlater : Later s s' := (Later.step hstep).trans (.run hrun')
    have hfresh := fresh_of_run (u := u) hrun' (Later.step hstep).next
      (fun e he => hl.fresh hstep he)
    refine unmatched_settles_nothing fun e he hm => ?_
    rw [hlater.token i hi] at he hm
    have hge := hfresh e (huser ▸ he)
    have hlt := h.lease i hi
    have hgen := hm.2.1
    omega

/-! ## Sample runs -/

/-- The run of an `Ensure`, a claim and the first half of a `MarkStarted`. -/
def sampleClaimed : State := (start.ensure 5 7 100).2.claim 5 7 100

def sampleMarked : State := sampleClaimed.markSettled 0 .starting

theorem sampleMarked_reachable :
    Run Step start [.ensure 5 7 100, .claim 5 7 100, .markStarted 0] sampleMarked := by
  refine .cons (.ensure 5 7 100) (.cons (.claim 5 7 100) (.single (.markStarted 0 ?_)))
  decide

theorem replay_obligations_marked :
    ∃ i < sampleMarked.issued, (sampleMarked.leases i).token.userId = 5 ∧
      Matches (sampleMarked.leases i).token ⟨7, 1, 1, 0, 100, true⟩ ∧
      (sampleMarked.leases i).status ≠ .settled ∧
      ∀ now, (sampleMarked.abandoned i now).entries =
        sampleMarked.entries.insert 5
          (ReplayEntry.rearm ⟨7, 1, 1, 0, 100, true⟩ (sampleMarked.leases i).token now) :=
  (replay_obligations sampleMarked_reachable).2.2.1 5 ⟨7, 1, 1, 0, 100, true⟩ (by decide) rfl

/-- Inside a `MarkStarted` the entry is in flight while `settled_` of its only lease is set. -/
theorem settling_lease_in_flight :
    Run Step start [.ensure 5 7 100, .claim 5 7 100, .markStarted 0] sampleMarked ∧
      sampleMarked.entries.lookup 5 = some ⟨7, 1, 1, 0, 100, true⟩ ∧
      ¬∃ i < sampleMarked.issued, (sampleMarked.leases i).status = .armed ∧
        Matches (sampleMarked.leases i).token ⟨7, 1, 1, 0, 100, true⟩ := by
  refine ⟨sampleMarked_reachable, by decide, ?_⟩
  rintro ⟨i, hi, harmed, -⟩
  have hi : i = 0 := Nat.lt_one_iff.1 hi
  subst hi
  exact absurd harmed (by decide)

end TinyImx.Gateway.ReplayAdmission
