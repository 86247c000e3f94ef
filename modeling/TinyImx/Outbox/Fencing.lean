import Mathlib.Data.Multiset.Bind
import TinyImx.Outbox.Relay

/-!
# Fencing by claim tokens

A token claims rows in one statement only, and a row's `locked_by` is always the token of its last
claim.  So a statement that carries a token finds its row only while no later claim took it, and an
event that is marked published was confirmed to the relay that held its claim at that time.
-/

namespace TinyImx.Outbox

open List (append_nil mem_append mem_append_left mem_append_right mem_singleton_self nil_subset)
open Multiset (add_bind cons_bind mem_add mem_cons mem_cons_of_mem mem_cons_self mem_of_le
  mem_singleton nodup_cons nodup_of_le notMem_zero singleton_add)
open Function (update_of_ne update_self)

variable {ρ : Type} {id : ℕ} {ls : List (Label ρ)} {l : Label ρ}

/-! ## What a run did -/

def claimsOf (id : ℕ) (ls : List (Label ρ)) : List (Token ρ) :=
  ls.filterMap fun
    | .claim token ids => if id ∈ ids then some token else none
    | _ => none

def latestClaim (id : ℕ) (ls : List (Label ρ)) : Option (Token ρ) := (claimsOf id ls).getLast?

/-- The event of a row was confirmed to a relay while a token of that relay was the latest
claimant of the row. -/
def Confirmed (ls : List (Label ρ)) (id : ℕ) (event : Event) : Prop :=
  ∃ ls₁ ls₂ record, ls = ls₁ ++ .publish record.lockedBy.relay record :: ls₂ ∧
    record.outboxId = id ∧ record.event = event ∧ latestClaim id ls₁ = some record.lockedBy

def Known (ls : List (Label ρ)) (record : Record ρ) : Prop :=
  record.lockedBy ∈ claimsOf record.outboxId ls ∧ .insert record.outboxId record.event ∈ ls

theorem claimsOf_append (id : ℕ) (ls ms : List (Label ρ)) :
    claimsOf id (ls ++ ms) = claimsOf id ls ++ claimsOf id ms := List.filterMap_append

theorem claimsOf_claim (id : ℕ) (token : Token ρ) (ids : List ℕ) :
    claimsOf id [.claim token ids] = if id ∈ ids then [token] else [] := by
  unfold claimsOf
  split <;> simp_all

theorem latestClaim_claim (id : ℕ) (ls : List (Label ρ)) (token : Token ρ) (ids : List ℕ) :
    latestClaim id (ls ++ [.claim token ids]) =
      if id ∈ ids then some token else latestClaim id ls := by
  rw [latestClaim, claimsOf_append, claimsOf_claim]
  split
  · rw [List.getLast?_concat]
  · rw [append_nil, latestClaim]

def Label.Unclaimed (l : Label ρ) : Prop := ∀ token ids, l ≠ .claim token ids

theorem claimsOf_snoc (hl : l.Unclaimed) (id : ℕ) (ls : List (Label ρ)) :
    claimsOf id (ls ++ [l]) = claimsOf id ls := by
  rw [claimsOf_append]
  cases l with
  | claim token ids => exact absurd rfl (hl token ids)
  | _ => exact append_nil _

theorem latestClaim_snoc (hl : l.Unclaimed) (id : ℕ) (ls : List (Label ρ)) :
    latestClaim id (ls ++ [l]) = latestClaim id ls := by rw [latestClaim, claimsOf_snoc hl, latestClaim]

theorem Known.mono {record : Record ρ} (h : Known ls record) (l : Label ρ) : Known (ls ++ [l]) record := by
  refine ⟨?_, mem_append_left _ h.2⟩
  rw [claimsOf_append]
  exact mem_append_left _ h.1

theorem Confirmed.mono {event : Event} (h : Confirmed ls id event) (l : Label ρ) :
    Confirmed (ls ++ [l]) id event := by
  obtain ⟨ls₁, ls₂, record, rfl, hrest⟩ := h
  exact ⟨ls₁, ls₂ ++ [l], record, by simp, hrest⟩

theorem prefix_eq_of_getLast {α : Type} {xs ys : List α} {a : α} (hnodup : (xs ++ ys).Nodup)
    (hlast : (xs ++ ys).getLast? = some a) (hmem : a ∈ xs) : ys = [] := by
  rcases List.eq_nil_or_concat' ys with rfl | ⟨zs, b, rfl⟩
  · rfl
  · rw [← List.append_assoc, List.getLast?_concat] at hlast
    cases hlast
    exact absurd rfl ((List.nodup_append.1 hnodup).2.2 a hmem a (by simp))

theorem latestClaim_of_prefix {ms : List (Label ρ)} {token : Token ρ} (hnodup : (claimsOf id (ls ++ ms)).Nodup)
    (hlatest : latestClaim id (ls ++ ms) = some token) (hmem : token ∈ claimsOf id ls) :
    latestClaim id ls = some token := by
  rw [latestClaim, claimsOf_append] at hlatest
  rw [claimsOf_append] at hnodup
  rw [prefix_eq_of_getLast hnodup hlatest hmem, append_nil] at hlatest
  exact hlatest

/-! ## What one statement does to a row -/

section Statements

variable [DecidableEq ρ] {table : Table ρ} {row : Row ρ} {now : ℕ}

theorem executeOwnedMutation_cases (targets : List (ℕ × Token ρ)) (set : Row ρ → Row ρ)
    (h : table id = some row) :
    executeOwnedMutation targets set table id = some row ∨
      ∃ token, (id, token) ∈ targets ∧ row.lockedBy = some token ∧ row.status.active = true ∧
        executeOwnedMutation targets set table id = some (set row) := by
  rw [executeOwnedMutation, h, Option.map_some]
  cases howned : row.ownedBy targets id with
  | false => exact .inl rfl
  | true =>
    rw [Row.ownedBy, Bool.and_eq_true] at howned
    obtain ⟨token, htoken, hmem⟩ := Option.any_eq_true _ _ |>.1 howned.1
    exact .inr ⟨token, of_decide_eq_true hmem, htoken, howned.2, rfl⟩

structure Changes (m : Mutation ρ) (row row' : Row ρ) : Prop where
  event : row'.event = row.event
  attempts : row.attemptCount ≤ row'.attemptCount
  lockedBy : row'.lockedBy = none ∨ row'.lockedBy = row.lockedBy
  published : row'.status = .published → ∃ targets, m = .publish targets

/-- A statement leaves a row alone unless the row carries the token of the statement and is neither
published nor quarantined. -/
theorem Mutation.apply_cases (m : Mutation ρ) (now : ℕ) (h : table id = some row) :
    m.apply now table id = some row ∨
      ∃ token row', (id, token) ∈ m.targets ∧ row.lockedBy = some token ∧ row.status.active = true ∧
        m.apply now table id = some row' ∧ Changes m row row' := by
  have hstatus : row.status.active = true → row.status ≠ .published := by
    rintro hactive heq
    rw [heq] at hactive
    cases hactive
  cases m with
  | renew i token leaseMs =>
    refine (executeOwnedMutation_cases [(i, token)]
      (fun row => { row with lockedUntil := some (now + leaseMs) }) h).imp_right ?_
    rintro ⟨t, hmem, hlocked, hactive, heq⟩
    exact ⟨t, _, hmem, hlocked, hactive, heq, rfl, le_rfl, .inr rfl, fun hp => absurd hp (hstatus hactive)⟩
  | publish targets =>
    have howned : ∀ targets' : List (ℕ × Token ρ), targets' ⊆ targets →
        executeOwnedMutation targets' (·.publish now) table id = some row ∨
        ∃ token row', (id, token) ∈ targets ∧ row.lockedBy = some token ∧ row.status.active = true ∧
          executeOwnedMutation targets' (·.publish now) table id = some row' ∧
          Changes (.publish targets) row row' := by
      intro targets' hsub
      refine (executeOwnedMutation_cases targets' (·.publish now) h).imp_right ?_
      rintro ⟨t, hmem, hlocked, hactive, heq⟩
      exact ⟨t, _, hsub hmem, hlocked, hactive, heq, rfl, Nat.le_succ _, .inl rfl, fun _ => ⟨targets, rfl⟩⟩
    show markPublishedBatch targets now table id = some row ∨ ∃ token row', (id, token) ∈ targets ∧
      row.lockedBy = some token ∧ row.status.active = true ∧
      markPublishedBatch targets now table id = some row' ∧ Changes (.publish targets) row row'
    unfold markPublishedBatch
    split
    · split
      · exact howned _ (List.Subset.refl _)
      · exact howned _ (List.Subset.refl _)
    · exact .inl h
  | retry i token retryAfterMs =>
    refine (executeOwnedMutation_cases [(i, token)] _ h).imp_right ?_
    rintro ⟨t, hmem, hlocked, hactive, heq⟩
    exact ⟨t, _, hmem, hlocked, hactive, heq, rfl, Nat.le_succ _, .inl rfl, fun hp => by cases hp⟩
  | quarantine i token publishAttempted =>
    refine (executeOwnedMutation_cases [(i, token)] _ h).imp_right ?_
    rintro ⟨t, hmem, hlocked, hactive, heq⟩
    exact ⟨t, _, hmem, hlocked, hactive, heq, rfl, Nat.le_add_right _ _, .inl rfl, fun hp => by cases hp⟩
  | release i token =>
    refine (executeOwnedMutation_cases [(i, token)]
      (fun row => { row with lockedBy := none, lockedUntil := none }) h).imp_right ?_
    rintro ⟨t, hmem, hlocked, hactive, heq⟩
    exact ⟨t, _, hmem, hlocked, hactive, heq, rfl, le_rfl, .inl rfl, fun hp => absurd hp (hstatus hactive)⟩

theorem executeOwnedMutation_none (targets : List (ℕ × Token ρ)) (set : Row ρ → Row ρ)
    (h : table id = none) : executeOwnedMutation targets set table id = none := by
  rw [executeOwnedMutation, h]
  rfl

theorem Mutation.apply_none (m : Mutation ρ) (now : ℕ) (h : table id = none) :
    m.apply now table id = none := by
  cases m with
  | publish targets =>
    show markPublishedBatch targets now table id = none
    unfold markPublishedBatch
    split
    · split
      · exact executeOwnedMutation_none _ _ h
      · exact executeOwnedMutation_none _ _ h
    · exact h
  | _ => exact executeOwnedMutation_none _ _ h

end Statements

theorem claimRecords_mem {token : Token ρ} {ids : List ℕ} {table : Table ρ} {record : Record ρ}
    (h : record ∈ claimRecords token ids table) : record.outboxId ∈ ids ∧ record.lockedBy = token ∧
      ∃ row, table record.outboxId = some row ∧ row.event = record.event := by
  obtain ⟨id, hid, heq⟩ := List.mem_filterMap.1 h
  obtain ⟨row, hrow, rfl⟩ := Option.map_eq_some_iff.1 heq
  exact ⟨hid, rfl, row, hrow, rfl⟩

/-! ## The records of a relay -/

def Poll.records : Poll ρ → List (Record ρ)
  | .claimed _ records | .noted records => records
  | _ => []

def Worker.records : Worker ρ → List (Record ρ)
  | .processing items rest published => items ++ rest ++ published
  | .finishing rest => rest
  | _ => []

def Worker.confirmed : Worker ρ → List (Record ρ)
  | .processing _ _ published => published
  | _ => []

def Shutdown.records : Shutdown ρ → List (Record ρ)
  | .abandoning rest => rest
  | _ => []

namespace Relay

variable {codec : Codec} {options : Options} {self : ρ} {relay relay' : Relay ρ} {effect : Effect ρ}
  {record : Record ρ}

def Holds (relay : Relay ρ) (record : Record ρ) : Prop :=
  record ∈ relay.poll.records ∨ record ∈ relay.queue ∨ (∃ w ∈ relay.workers, record ∈ w.records) ∨
    record ∈ relay.shutdown.records

def HasConfirmed (relay : Relay ρ) (record : Record ρ) : Prop :=
  ∃ w ∈ relay.workers, record ∈ w.confirmed

theorem Holds.of_worker {w w' : Worker ρ} {workers : Multiset (Worker ρ)} {queue : List (Record ρ)}
    {inflight : Finmap fun _ : ℕ => Token ρ} (hw : relay.workers = w ::ₘ workers)
    (hsub : ∀ r ∈ w'.records, r ∈ w.records ∨ r ∈ relay.queue) (hqueue : queue ⊆ relay.queue)
    (h : Holds { relay with workers := w' ::ₘ workers, queue, inflight } record) : relay.Holds record := by
  rcases h with h | h | ⟨v, hv, hr⟩ | h
  · exact .inl h
  · exact .inr (.inl (hqueue h))
  · rcases mem_cons.1 hv with rfl | hv
    · rcases hsub record hr with hr | hr
      · exact .inr (.inr (.inl ⟨w, hw ▸ mem_cons_self _ _, hr⟩))
      · exact .inr (.inl hr)
    · exact .inr (.inr (.inl ⟨v, hw ▸ mem_cons_of_mem hv, hr⟩))
  · exact .inr (.inr (.inr h))

/-- A relay gets new records only by a reply to a claim. -/
theorem Step.holds (hs : Relay.Step codec options self relay effect relay') (h : relay'.Holds record) :
    relay.Holds record := by
  cases hs with
  | limited hpoll _ _ | loseClaim hpoll | cleanup hpoll | again hpoll | exitPoll hpoll _ =>
    exact h.imp_left fun hr => by cases hr
  | sendClaim hpoll _ _ _ => exact h.imp_left fun hr => by cases hr
  | note hpoll => exact h.imp_left fun hr => by rwa [hpoll]
  | push hpoll =>
    rcases h with h | h | h
    · cases h
    · rcases mem_append.1 h with h | h
      · exact .inr (.inl h)
      · exact .inl (by rwa [hpoll])
    · exact .inr (.inr h)
  | take hw _ hsplit =>
    rw [List.splitAt_eq] at hsplit
    cases hsplit
    refine h.of_worker hw (fun r hr => .inr ?_) (List.drop_subset _ _)
    simp only [Worker.records, append_nil, mem_append, or_self] at hr
    exact List.take_subset _ _ hr
  | refuse hw _ =>
    refine h.of_worker hw (fun r hr => .inl ?_) (List.Subset.refl _)
    simp only [Worker.records, mem_append, List.mem_cons] at hr ⊢
    tauto
  | confirm hw _ =>
    refine h.of_worker hw (fun r hr => .inl ?_) (List.Subset.refl _)
    simp only [Worker.records, mem_append, List.mem_cons, List.not_mem_nil, or_false] at hr ⊢
    tauto
  | mark hw _ =>
    refine h.of_worker hw (fun r hr => .inl ?_) (List.Subset.refl _)
    exact mem_append_left _ (mem_append_left _ hr)
  | noMark hw =>
    refine h.of_worker hw (fun r hr => .inl ?_) (List.Subset.refl _)
    exact mem_append_left _ (mem_append_left _ hr)
  | finish hw =>
    refine h.of_worker hw (fun r hr => .inl ?_) (List.Subset.refl _)
    exact List.mem_cons_of_mem _ hr
  | finished hw => exact h.of_worker hw (fun r hr => by cases hr) (List.Subset.refl _)
  | exitWorker hw _ _ => exact h.of_worker hw (fun r hr => by cases hr) (List.Subset.refl _)
  | snapshot _ _ _ | renew _ | renewed _ | exitRenew _ _ => exact h
  | shutdown _ | joined _ _ | drained _ _ | abandoned _ | joinWorkers _ _ | joinRenew _ _ =>
    rcases h with h | h | h | h
    · exact .inl h
    · exact .inr (.inl h)
    · exact .inr (.inr (.inl h))
    · cases h
  | abandon _ =>
    rcases h with h | h | h | h
    · exact .inl h
    · cases h
    · exact .inr (.inr (.inl h))
    · exact .inr (.inl h)
  | release hshut =>
    rcases h with h | h | h | h
    · exact .inl h
    · exact .inr (.inl h)
    · exact .inr (.inr (.inl h))
    · exact .inr (.inr (.inr (by rw [hshut]; exact List.mem_cons_of_mem _ h)))

theorem HasConfirmed.of_worker {w w' : Worker ρ} {workers : Multiset (Worker ρ)}
    (hw : relay.workers = w ::ₘ workers) (hw' : relay'.workers = w' ::ₘ workers)
    (hsub : w'.confirmed ⊆ w.confirmed) (h : relay'.HasConfirmed record) : relay.HasConfirmed record := by
  obtain ⟨v, hv, hr⟩ := h
  rw [hw'] at hv
  rcases mem_cons.1 hv with rfl | hv
  · exact ⟨w, hw ▸ mem_cons_self _ _, hsub hr⟩
  · exact ⟨v, hw ▸ mem_cons_of_mem hv, hr⟩

theorem Step.hasConfirmed (hs : Relay.Step codec options self relay effect relay')
    (h : relay'.HasConfirmed record) : relay.HasConfirmed record ∨ effect = .publish record := by
  cases hs with
  | take hw _ _ => exact .inl (h.of_worker hw rfl (nil_subset _))
  | refuse hw _ =>
    refine .inl (h.of_worker hw rfl ?_)
    exact List.Subset.refl _
  | @confirm workers r items rest published _ hw _ =>
    obtain ⟨v, hv, hr⟩ := h
    rcases mem_cons.1 hv with rfl | hv
    · rcases mem_append.1 hr with hr | hr
      · exact .inl ⟨.processing items (r :: rest) published, hw ▸ mem_cons_self _ _, hr⟩
      · simp_all
    · exact .inl ⟨v, hw ▸ mem_cons_of_mem hv, hr⟩
  | mark hw _ => exact .inl (h.of_worker hw rfl (nil_subset _))
  | noMark hw => exact .inl (h.of_worker hw rfl (nil_subset _))
  | finish hw => exact .inl (h.of_worker hw rfl (nil_subset _))
  | finished hw => exact .inl (h.of_worker hw rfl (nil_subset _))
  | exitWorker hw _ _ => exact .inl (h.of_worker hw rfl (nil_subset _))
  | _ => exact .inl h

theorem Step.publish (hs : Relay.Step codec options self relay (.publish record) relay') :
    relay.Holds record := by
  cases hs with
  | confirm hw _ =>
    refine .inr (.inr (.inl ⟨_, hw ▸ mem_cons_self _ _, ?_⟩))
    simp [Worker.records]

theorem Step.sendPublish {targets : List (ℕ × Token ρ)}
    (hs : Relay.Step codec options self relay (.send (.mutation (.publish targets))) relay') :
    ∀ target ∈ targets, ∃ record, relay.HasConfirmed record ∧ record.target = target := by
  generalize heff : Effect.send (Statement.mutation (.publish targets)) = effect at hs
  cases hs with
  | @mark workers items published hw _ =>
    cases heff
    intro target ht
    obtain ⟨record, hr, rfl⟩ := List.mem_map.1 ht
    exact ⟨record, ⟨.processing items [] published, hw ▸ mem_cons_self _ _, hr⟩, rfl⟩
  | refuse hw hm =>
    cases heff
    unfold processRecord at hm
    split at hm
    · cases hm
    · split at hm <;> cases hm
  | _ => cases heff

def claiming (relay : Relay ρ) : Option (Token ρ) :=
  match relay.poll with
  | .claiming _ token => some token
  | _ => none

theorem Step.claiming (hs : Relay.Step codec options self relay effect relay') :
    relay.claimGeneration ≤ relay'.claimGeneration ∧
    (∀ token, relay'.claiming = some token → relay.claiming = some token ∨
      token = ⟨self, relay.claimGeneration + 1⟩ ∧ relay'.claimGeneration = relay.claimGeneration + 1) ∧
    (∀ token limit leaseMs, effect = .send (.claim token limit leaseMs) →
      relay.claiming = some token ∧ relay'.claiming = none) ∧
    (relay.claimGeneration < relay'.claimGeneration → relay.claiming = none ∧ effect = .none) := by
  have hidle : ∀ {r' : Relay ρ}, r'.poll = relay.poll → r'.claiming = relay.claiming := fun h => by
    rw [Relay.claiming, Relay.claiming, h]
  cases hs with
  | sendClaim hpoll _ _ ht =>
    refine ⟨Nat.le_succ _, fun token htoken => .inr ?_, by simp, fun _ => ⟨by rw [Relay.claiming, hpoll], rfl⟩⟩
    cases htoken
    exact ⟨ht, rfl⟩
  | loseClaim hpoll =>
    refine ⟨le_rfl, fun token htoken => (by cases htoken), fun token limit leaseMs heq => ?_, fun h => absurd h (lt_irrefl _)⟩
    cases heq
    exact ⟨by rw [Relay.claiming, hpoll], rfl⟩
  | refuse hw hm =>
    refine ⟨le_rfl, fun token htoken => .inl htoken, fun token limit leaseMs heq => ?_, fun h => absurd h (lt_irrefl _)⟩
    cases heq
  | limited | note | push | cleanup | again | exitPoll =>
    exact ⟨le_rfl, fun token htoken => (by cases htoken), by simp, fun h => absurd h (lt_irrefl _)⟩
  | _ => exact ⟨le_rfl, fun token htoken => .inl htoken, by simp, fun h => absurd h (lt_irrefl _)⟩

end Relay

/-! ## Tokens are used once -/

def Statement.token : Statement ρ → Multiset (Token ρ)
  | .claim token _ _ => {token}
  | _ => 0

def State.sent (s : State ρ) : Multiset (Token ρ) := s.network.bind Statement.token

def Claims (ls : List (Label ρ)) (token : Token ρ) : Prop := ∃ ids, .claim token ids ∈ ls

theorem claims_of_mem {token : Token ρ} (h : token ∈ claimsOf id ls) : Claims ls token := by
  obtain ⟨l, hl, heq⟩ := List.mem_filterMap.1 h
  cases l with
  | claim t ids =>
    simp only [Option.ite_none_right_eq_some, Option.some.injEq] at heq
    exact ⟨ids, heq.2 ▸ hl⟩
  | _ => cases heq

theorem claims_snoc {token : Token ρ} (hl : l.Unclaimed) : Claims (ls ++ [l]) token ↔ Claims ls token := by
  constructor
  · rintro ⟨ids, h⟩
    rcases mem_append.1 h with h | h
    · exact ⟨ids, h⟩
    · exact absurd (List.mem_singleton.1 h).symm (hl token ids)
  · rintro ⟨ids, h⟩
    exact ⟨ids, mem_append_left _ h⟩

theorem claims_claim {token t : Token ρ} {ids : List ℕ} :
    Claims (ls ++ [.claim token ids]) t ↔ Claims ls t ∨ t = token := by
  constructor
  · rintro ⟨ids', h⟩
    rcases mem_append.1 h with h | h
    · exact .inl ⟨ids', h⟩
    · simp_all
  · rintro (⟨ids', h⟩ | rfl)
    · exact ⟨ids', mem_append_left _ h⟩
    · exact ⟨ids, mem_append_right _ (mem_singleton_self _)⟩

structure Tokens (ls : List (Label ρ)) (s : State ρ) : Prop where
  sent_nodup : s.sent.Nodup
  sent_new : ∀ t ∈ s.sent, ¬ Claims ls t
  claiming : ∀ self relay t, s.relays self = some relay → relay.claiming = some t →
    t.relay = self ∧ t.generation = relay.claimGeneration ∧ t ∉ s.sent ∧ ¬ Claims ls t
  generation : ∀ self relay t, s.relays self = some relay → t ∈ s.sent ∨ Claims ls t →
    t.relay = self → t.generation ≤ relay.claimGeneration
  nodup : ∀ id, (claimsOf id ls).Nodup

namespace Tokens

variable {s s' : State ρ}

theorem init (options : ρ → Options) : Tokens [] (State.initial options) where
  sent_nodup := Multiset.nodup_zero
  sent_new := by simp [State.sent, State.initial]
  claiming := fun self relay t hrelay ht => by
    cases hrelay
    cases ht
  generation := by simp [State.sent, State.initial, Claims]
  nodup := fun _ => List.nodup_nil

theorem congr (h : Tokens ls s) (hl : l.Unclaimed) (hsent : s'.sent ≤ s.sent)
    (hrelays : s'.relays = s.relays) : Tokens (ls ++ [l]) s' where
  sent_nodup := nodup_of_le hsent h.sent_nodup
  sent_new := fun t ht => by
    rw [claims_snoc hl]
    exact h.sent_new t (mem_of_le hsent ht)
  claiming := fun self relay t hrelay ht => by
    obtain ⟨hself, hgen, hnot, hnew⟩ := h.claiming self relay t (hrelays ▸ hrelay) ht
    refine ⟨hself, hgen, fun hmem => hnot (mem_of_le hsent hmem), ?_⟩
    rwa [claims_snoc hl]
  generation := fun self relay t hrelay ht => by
    rw [claims_snoc hl] at ht
    exact h.generation self relay t (hrelays ▸ hrelay) (ht.imp_left (mem_of_le hsent))
  nodup := fun id => by
    rw [claimsOf_snoc hl]
    exact h.nodup id

theorem claim {token : Token ρ} {ids : List ℕ} (h : Tokens ls s) (hnew : ¬ Claims ls token)
    (hsent : s'.sent ≤ s.sent) (hnot : token ∉ s'.sent)
    (hrelays : ∀ self relay', s'.relays self = some relay' → ∃ relay, s.relays self = some relay ∧
      relay'.claimGeneration = relay.claimGeneration ∧
      (∀ t, relay'.claiming = some t → relay.claiming = some t ∧ t ≠ token) ∧
      (token.relay = self → token.generation ≤ relay.claimGeneration)) :
    Tokens (ls ++ [.claim token ids]) s' where
  sent_nodup := nodup_of_le hsent h.sent_nodup
  sent_new := fun t ht hc => by
    rcases claims_claim.1 hc with hc | rfl
    · exact h.sent_new t (mem_of_le hsent ht) hc
    · exact hnot ht
  claiming := fun self relay' t hrelay' ht => by
    obtain ⟨relay, hrelay, hgen, hclaiming, -⟩ := hrelays self relay' hrelay'
    obtain ⟨hold, hne⟩ := hclaiming t ht
    obtain ⟨hself, hgen', hnot', hnew'⟩ := h.claiming self relay t hrelay hold
    exact ⟨hself, hgen'.trans hgen.symm, fun hmem => hnot' (mem_of_le hsent hmem),
      fun hc => (claims_claim.1 hc).elim hnew' hne⟩
  generation := fun self relay' t hrelay' ht hself => by
    obtain ⟨relay, hrelay, hgen, -, htoken⟩ := hrelays self relay' hrelay'
    rw [hgen]
    rcases ht with ht | ht
    · exact h.generation self relay t hrelay (.inl (mem_of_le hsent ht)) hself
    · rcases claims_claim.1 ht with ht | rfl
      · exact h.generation self relay t hrelay (.inr ht) hself
      · exact htoken hself
  nodup := fun id => by
    rw [claimsOf_append, claimsOf_claim]
    split
    · refine List.nodup_append.2 ⟨h.nodup id, List.nodup_singleton _, fun a ha b hb heq => ?_⟩
      rw [List.mem_singleton.1 hb] at heq
      exact hnew (heq ▸ claims_of_mem ha)
    · rw [append_nil]
      exact h.nodup id

/-- A relay makes a step or crashes: the claim it waited for may become one that nobody waits for. -/
theorem pass {self : ρ} (h : Tokens ls s) (hl : l.Unclaimed)
    (hsent : s'.sent = s.sent ∨ ∃ t relay, s.relays self = some relay ∧ relay.claiming = some t ∧
      s'.sent = t ::ₘ s.sent)
    (hother : ∀ other, other ≠ self → s'.relays other = s.relays other)
    (hself : ∀ relay', s'.relays self = some relay' → ∃ relay, s.relays self = some relay ∧
      relay.claimGeneration ≤ relay'.claimGeneration ∧ ∀ t, relay'.claiming = some t →
        s'.sent = s.sent ∧ (relay.claiming = some t ∧ relay'.claimGeneration = relay.claimGeneration ∨
          t = ⟨self, relay.claimGeneration + 1⟩ ∧
            relay'.claimGeneration = relay.claimGeneration + 1)) :
    Tokens (ls ++ [l]) s' := by
  have hmem : ∀ t ∈ s'.sent, t ∈ s.sent ∨ ∃ relay, s.relays self = some relay ∧
      relay.claiming = some t := by
    intro t ht
    rcases hsent with heq | ⟨t', relay, hrelay, hclaiming, heq⟩
    · exact .inl (heq ▸ ht)
    · rw [heq] at ht
      rcases mem_cons.1 ht with rfl | ht
      · exact .inr ⟨relay, hrelay, hclaiming⟩
      · exact .inl ht
  constructor
  · rcases hsent with heq | ⟨t, relay, hrelay, hclaiming, heq⟩
    · exact heq ▸ h.sent_nodup
    · rw [heq]
      exact nodup_cons.2 ⟨(h.claiming self relay t hrelay hclaiming).2.2.1, h.sent_nodup⟩
  · intro t ht
    rw [claims_snoc hl]
    rcases hmem t ht with ht | ⟨relay, hrelay, hclaiming⟩
    · exact h.sent_new t ht
    · exact (h.claiming self relay t hrelay hclaiming).2.2.2
  · intro other relay' t hrelay' ht
    rw [claims_snoc hl]
    by_cases hne : other = self
    · subst hne
      obtain ⟨relay, hrelay, -, hclaiming⟩ := hself relay' hrelay'
      obtain ⟨hsame, ⟨hold, hgen⟩ | ⟨rfl, hgen⟩⟩ := hclaiming t ht
      · rw [hsame, hgen]
        exact h.claiming other relay t hrelay hold
      · have hfresh : ∀ t' : Token ρ, t'.relay = other → t'.generation = relay.claimGeneration + 1 →
            ¬ (t' ∈ s.sent ∨ Claims ls t') := fun t' hr hg hused => by
          have := h.generation other relay t' hrelay hused hr
          omega
        have hnot := hfresh ⟨other, relay.claimGeneration + 1⟩ rfl rfl
        exact ⟨rfl, hgen.symm, fun hmem => hnot (.inl (hsame ▸ hmem)), fun hc => hnot (.inr hc)⟩
    · rw [hother other hne] at hrelay'
      obtain ⟨hr, hg, hnot, hnew⟩ := h.claiming other relay' t hrelay' ht
      refine ⟨hr, hg, fun hin => ?_, hnew⟩
      rcases hmem t hin with hin | ⟨relay, hrelay, hclaiming⟩
      · exact hnot hin
      · exact hne (hr.symm.trans (h.claiming self relay t hrelay hclaiming).1)
  · intro other relay' t hrelay' ht hr
    rw [claims_snoc hl] at ht
    have hbound : ∀ relay, s.relays other = some relay → t.generation ≤ relay.claimGeneration := by
      intro relay hrelay
      rcases ht with ht | ht
      · rcases hmem t ht with ht | ⟨relay₀, hrelay₀, hclaiming⟩
        · exact h.generation other relay t hrelay (.inl ht) hr
        · obtain ⟨hr₀, hg₀, -⟩ := h.claiming self relay₀ t hrelay₀ hclaiming
          obtain rfl : other = self := hr.symm.trans hr₀
          rw [hrelay₀] at hrelay
          cases hrelay
          exact hg₀.le
      · exact h.generation other relay t hrelay (.inr ht) hr
    by_cases hne : other = self
    · subst hne
      obtain ⟨relay, hrelay, hle, -⟩ := hself relay' hrelay'
      exact (hbound relay hrelay).trans hle
    · rw [hother other hne] at hrelay'
      exact hbound relay' hrelay'
  · intro id
    rw [claimsOf_snoc hl]
    exact h.nodup id

theorem effect_unclaimed (self : ρ) (effect : Effect ρ) : (effect.label self).Unclaimed := by
  cases effect <;> simp [Effect.label, Label.Unclaimed]

variable [DecidableEq ρ] {codec : Codec} {options : ρ → Options}

theorem relay {self : ρ} {relay relay' : Relay ρ} {effect : Effect ρ} (h : Tokens ls s)
    (hrelay : s.relays self = some relay)
    (hs : Relay.Step codec (options self) self relay effect relay') :
    Tokens (ls ++ [effect.label self]) { s with
      relays := Function.update s.relays self (some relay')
      network := effect.sent + s.network } := by
  obtain ⟨hle, hclaiming, hlost, hgrown⟩ := hs.claiming
  have hsent : State.sent { s with
      relays := Function.update s.relays self (some relay')
      network := effect.sent + s.network } = effect.sent.bind Statement.token + s.sent :=
    add_bind _ _ _
  refine h.pass (effect_unclaimed self effect) ?_ (fun other hne => update_of_ne hne _ _)
    fun relay'' hrelay'' => ?_
  · rw [hsent]
    cases effect with
    | none => exact .inl (by simp [Effect.sent])
    | publish record => exact .inl (by simp [Effect.sent])
    | send statement =>
      cases statement with
      | claim t limit leaseMs =>
        refine .inr ⟨t, relay, hrelay, (hlost t limit leaseMs rfl).1, ?_⟩
        simp [Effect.sent, Statement.token, singleton_add]
      | mutation m => exact .inl (by simp [Effect.sent, Statement.token])
      | cleanup _ _ => exact .inl (by simp [Effect.sent, Statement.token])
  · simp only [update_self] at hrelay''
    cases hrelay''
    refine ⟨relay, hrelay, hle, fun t ht => ⟨?_, ?_⟩⟩
    · rw [hsent]
      cases effect with
      | none => simp [Effect.sent]
      | publish record => simp [Effect.sent]
      | send statement =>
        cases statement with
        | claim t' limit leaseMs =>
          rw [(hlost t' limit leaseMs rfl).2] at ht
          cases ht
        | mutation m => simp [Effect.sent, Statement.token]
        | cleanup _ _ => simp [Effect.sent, Statement.token]
    · refine (hclaiming t ht).imp_left fun hold => ⟨hold, ?_⟩
      grind

theorem crash {self : ρ} {relay : Relay ρ} (h : Tokens ls s) (hrelay : s.relays self = some relay) :
    Tokens (ls ++ [.silent]) { s with
      relays := Function.update s.relays self none
      network := relay.pendingClaim (options self) + s.network } := by
  refine h.pass (by simp [Label.Unclaimed]) ?_
    (fun other hne => update_of_ne hne _ _) fun relay' hrelay' => ?_
  · rw [State.sent, add_bind, Relay.pendingClaim]
    cases hpoll : relay.poll with
    | claiming size token =>
      exact .inr ⟨token, relay, hrelay, by rw [Relay.claiming, hpoll],
        by simp [State.sent, Statement.token, singleton_add]⟩
    | _ => exact .inl (by simp [State.sent])
  · simp_all

theorem step (h : Tokens ls s) (hs : Step codec options s l s') : Tokens (ls ++ [l]) s' := by
  cases hs with
  | tick _ => exact h.congr (by simp [Label.Unclaimed]) le_rfl rfl
  | insert _ => exact h.congr (by simp [Label.Unclaimed]) le_rfl rfl
  | relay hrelay hs => exact h.relay hrelay hs
  | crash hrelay => exact h.crash hrelay
  | @claim self relay size token ids hrelay hpoll _ =>
    have hclaiming : relay.claiming = some token := by rw [Relay.claiming, hpoll]
    obtain ⟨hself, hgen, hnot, hnew⟩ := h.claiming self relay token hrelay hclaiming
    refine h.claim hnew le_rfl hnot fun other relay' hrelay' => ?_
    by_cases hne : other = self
    · subst hne
      simp only [update_self] at hrelay'
      cases hrelay'
      exact ⟨relay, hrelay, rfl, fun t ht => (by cases ht), fun _ => hgen.le⟩
    · simp only [update_of_ne hne] at hrelay'
      refine ⟨relay', hrelay', rfl, fun t ht => ⟨ht, ?_⟩, fun heq => absurd (heq.symm.trans hself) hne⟩
      rintro rfl
      exact hne ((h.claiming other relay' t hrelay' ht).1.symm.trans hself)
  | @lateClaim token limit leaseMs ids network hnetwork _ =>
    have hsent : s.sent = token ::ₘ network.bind Statement.token := by
      rw [State.sent, hnetwork, cons_bind, Statement.token, singleton_add]
    have hmem : token ∈ s.sent := hsent ▸ mem_cons_self _ _
    have hnodup := h.sent_nodup
    rw [hsent, nodup_cons] at hnodup
    refine h.claim (h.sent_new token hmem) (hsent ▸ Multiset.le_cons_self _ _) hnodup.1
      fun other relay hrelay => ⟨relay, hrelay, rfl, fun t ht => ⟨ht, ?_⟩,
        h.generation other relay token hrelay (.inl hmem)⟩
    rintro rfl
    exact (h.claiming other relay t hrelay ht).2.2.1 hmem
  | execute hnetwork =>
    refine h.congr (by simp [Label.Unclaimed]) ?_ rfl
    rw [State.sent, State.sent, hnetwork, cons_bind]
    exact Multiset.le_add_left _ _
  | cleanup hnetwork _ =>
    refine h.congr (by simp [Label.Unclaimed]) ?_ rfl
    rw [State.sent, State.sent, hnetwork, cons_bind]
    exact Multiset.le_add_left _ _
  | drop hnetwork =>
    refine h.congr (by simp [Label.Unclaimed]) ?_ rfl
    rw [State.sent, State.sent, hnetwork, cons_bind]
    exact Multiset.le_add_left _ _

end Tokens

/-! ## Records and rows -/

section Rows

variable {s s' : State ρ}

structure Records (ls : List (Label ρ)) (s : State ρ) : Prop where
  known : ∀ self relay record, s.relays self = some relay → relay.Holds record →
    Known ls record ∧ record.lockedBy.relay = self
  confirmed : ∀ self relay record, s.relays self = some relay → relay.HasConfirmed record →
    .publish self record ∈ ls
  targets : ∀ targets, .mutation (.publish targets) ∈ s.network → ∀ target ∈ targets,
    ∃ self record, .publish self record ∈ ls ∧ record.target = target
  published : ∀ ls₁ ls₂ self record, ls = ls₁ ++ .publish self record :: ls₂ →
    Known ls₁ record ∧ record.lockedBy.relay = self

structure Rows (ls : List (Label ρ)) (s : State ρ) : Prop where
  row : ∀ id row, s.table id = some row → .insert id row.event ∈ ls ∧
    (∀ t, row.lockedBy = some t → latestClaim id ls = some t) ∧
    (row.status = .published → Confirmed ls id row.event)
  inserted : ∀ id event, .insert id event ∈ ls →
    id < s.nextId ∧ ((∃ row, s.table id = some row) ∨ Confirmed ls id event)
  unique : ∀ id e e', .insert id e ∈ ls → .insert id e' ∈ ls → e = e'

theorem snoc_eq_split {ls₁ ls₂ : List (Label ρ)} {a : Label ρ} (h : ls ++ [l] = ls₁ ++ a :: ls₂) :
    (l = a ∧ ls = ls₁) ∨ ∃ ls₃, ls = ls₁ ++ a :: ls₃ := by
  rcases List.eq_nil_or_concat' ls₂ with rfl | ⟨ls₃, l', rfl⟩
  · exact .inl ⟨(List.append_inj_right' h rfl |> List.singleton_inj.1), List.append_inj_left' h rfl⟩
  · rw [← List.cons_append, ← List.append_assoc] at h
    exact .inr ⟨ls₃, List.append_inj_left' h rfl⟩

namespace Records

theorem init (options : ρ → Options) : Records [] (State.initial options) where
  known := fun self relay record hrelay hholds => by
    cases hrelay
    rcases hholds with h | h | ⟨w, hw, h⟩ | h
    · cases h
    · cases h
    · rw [Multiset.eq_of_mem_replicate hw] at h
      cases h
    · cases h
  confirmed := fun self relay record hrelay hconfirmed => by
    cases hrelay
    obtain ⟨w, hw, h⟩ := hconfirmed
    rw [Multiset.eq_of_mem_replicate hw] at h
    cases h
  targets := by simp [State.initial]
  published := by simp

theorem published_snoc (h : Records ls s)
    (hl : ∀ self record, l = .publish self record → Known ls record ∧ record.lockedBy.relay = self) :
    ∀ ls₁ ls₂ self record, ls ++ [l] = ls₁ ++ .publish self record :: ls₂ →
      Known ls₁ record ∧ record.lockedBy.relay = self := by
  intro ls₁ ls₂ self record heq
  rcases snoc_eq_split heq with ⟨rfl, rfl⟩ | ⟨ls₃, heq⟩
  · exact hl self record rfl
  · exact h.published ls₁ ls₃ self record heq

theorem congr (h : Records ls s) (hl : ∀ self record, l ≠ .publish self record)
    (hrelays : ∀ self relay', s'.relays self = some relay' → ∃ relay, s.relays self = some relay ∧
      (∀ record, relay'.Holds record → relay.Holds record ∨
        Known (ls ++ [l]) record ∧ record.lockedBy.relay = self) ∧
      ∀ record, relay'.HasConfirmed record → relay.HasConfirmed record)
    (hnetwork : ∀ m, .mutation m ∈ s'.network → .mutation m ∈ s.network) : Records (ls ++ [l]) s' where
  known := fun self relay' record hrelay' hholds => by
    obtain ⟨relay, hrelay, hsub, -⟩ := hrelays self relay' hrelay'
    rcases hsub record hholds with hold | hnew
    · obtain ⟨hknown, hself⟩ := h.known self relay record hrelay hold
      exact ⟨hknown.mono l, hself⟩
    · exact hnew
  confirmed := fun self relay' record hrelay' hconfirmed => by
    obtain ⟨relay, hrelay, -, hsub⟩ := hrelays self relay' hrelay'
    exact mem_append_left _ (h.confirmed self relay record hrelay (hsub record hconfirmed))
  targets := fun targets hmem target ht => by
    obtain ⟨self, record, hpub, heq⟩ := h.targets targets (hnetwork _ hmem) target ht
    exact ⟨self, record, mem_append_left _ hpub, heq⟩
  published := h.published_snoc fun self record heq => absurd heq (hl self record)

variable [DecidableEq ρ] {codec : Codec} {options : ρ → Options}

theorem relay {self : ρ} {relay relay' : Relay ρ} {effect : Effect ρ} (h : Records ls s)
    (hrelay : s.relays self = some relay)
    (hs : Relay.Step codec (options self) self relay effect relay') :
    Records (ls ++ [effect.label self]) { s with
      relays := Function.update s.relays self (some relay')
      network := effect.sent + s.network } := by
  have hpublish : ∀ other record, effect.label self = .publish other record →
      other = self ∧ effect = .publish record := by
    intro other record heq
    cases effect with
    | publish r =>
      cases heq
      exact ⟨rfl, rfl⟩
    | _ => cases heq
  constructor
  · intro other relay₁ record hrelay₁ hholds
    by_cases hne : other = self
    · subst hne
      simp only [update_self] at hrelay₁
      cases hrelay₁
      obtain ⟨hknown, hself⟩ := h.known other relay record hrelay (hs.holds hholds)
      exact ⟨hknown.mono _, hself⟩
    · simp only [update_of_ne hne] at hrelay₁
      obtain ⟨hknown, hself⟩ := h.known other relay₁ record hrelay₁ hholds
      exact ⟨hknown.mono _, hself⟩
  · intro other relay₁ record hrelay₁ hconfirmed
    by_cases hne : other = self
    · subst hne
      simp only [update_self] at hrelay₁
      cases hrelay₁
      rcases hs.hasConfirmed hconfirmed with hold | rfl
      · exact mem_append_left _ (h.confirmed other relay record hrelay hold)
      · exact mem_append_right _ (mem_singleton_self _)
    · simp only [update_of_ne hne] at hrelay₁
      exact mem_append_left _ (h.confirmed other relay₁ record hrelay₁ hconfirmed)
  · intro targets hmem target ht
    rcases mem_add.1 hmem with hmem | hmem
    · cases effect with
      | none => exact absurd hmem (notMem_zero _)
      | publish _ => exact absurd hmem (notMem_zero _)
      | send statement =>
        obtain rfl := mem_singleton.1 hmem
        obtain ⟨record, hconfirmed, heq⟩ := hs.sendPublish target ht
        exact ⟨self, record, mem_append_left _ (h.confirmed self relay record hrelay hconfirmed), heq⟩
    · obtain ⟨other, record, hpub, heq⟩ := h.targets targets hmem target ht
      exact ⟨other, record, mem_append_left _ hpub, heq⟩
  · refine h.published_snoc fun other record heq => ?_
    obtain ⟨hself, rfl⟩ := hpublish other record heq
    rw [hself]
    exact h.known self relay record hrelay hs.publish

theorem step (h : Records ls s) (htokens : Tokens ls s) (hrows : Rows ls s)
    (hs : Step codec options s l s') : Records (ls ++ [l]) s' := by
  have hsame : ∀ self relay', s.relays self = some relay' → ∃ relay, s.relays self = some relay ∧
      (∀ record, relay'.Holds record → relay.Holds record ∨
        Known (ls ++ [l]) record ∧ record.lockedBy.relay = self) ∧
      ∀ record, relay'.HasConfirmed record → relay.HasConfirmed record :=
    fun self relay' hrelay' => ⟨relay', hrelay', fun _ => .inl, fun _ => id⟩
  cases hs with
  | tick _ => exact h.congr (by simp) hsame fun _ => id
  | insert _ => exact h.congr (by simp) hsame fun _ => id
  | relay hrelay hs => exact h.relay hrelay hs
  | @crash self relay hrelay =>
    refine h.congr (by simp) (fun other relay' hrelay' => ?_) fun m hm => ?_
    · by_cases hne : other = self
      · subst hne
        simp_all
      · simp only [update_of_ne hne] at hrelay'
        exact hsame other relay' hrelay'
    · refine (mem_add.1 hm).resolve_left fun hm => ?_
      unfold Relay.pendingClaim at hm
      split at hm
      · cases mem_singleton.1 hm
      · exact notMem_zero _ hm
  | @claim self relay size token ids hrelay hpoll _ =>
    refine h.congr (by simp) (fun other relay' hrelay' => ?_) fun _ => id
    by_cases hne : other = self
    · subst hne
      simp only [update_self] at hrelay'
      cases hrelay'
      refine ⟨relay, hrelay, fun record hholds => ?_, fun _ => id⟩
      rcases hholds with hr | hr
      · obtain ⟨hid, htoken, row, hrow, hevent⟩ := claimRecords_mem hr
        have hself := (htokens.claiming other relay token hrelay (by rw [Relay.claiming, hpoll])).1
        refine .inr ⟨⟨?_, mem_append_left _ (hevent ▸ (hrows.row _ row hrow).1)⟩, htoken ▸ hself⟩
        rw [claimsOf_append, claimsOf_claim, if_pos hid, htoken]
        exact mem_append_right _ (mem_singleton_self _)
      · exact .inl (.inr hr)
    · simp only [update_of_ne hne] at hrelay'
      exact hsame other relay' hrelay'
  | lateClaim hnetwork _ =>
    exact h.congr (by simp) hsame fun m hm => hnetwork ▸ mem_cons_of_mem hm
  | execute hnetwork => exact h.congr (by simp) hsame fun m hm => hnetwork ▸ mem_cons_of_mem hm
  | cleanup hnetwork _ => exact h.congr (by simp) hsame fun m hm => hnetwork ▸ mem_cons_of_mem hm
  | drop hnetwork => exact h.congr (by simp) hsame fun m hm => hnetwork ▸ mem_cons_of_mem hm

omit [DecidableEq ρ] in
theorem confirm {row : Row ρ} {token : Token ρ} {targets : List (ℕ × Token ρ)} (h : Records ls s)
    (htokens : Tokens ls s) (hrows : Rows ls s) (hrow : s.table id = some row)
    (hlocked : row.lockedBy = some token) (hmem : .mutation (.publish targets) ∈ s.network)
    (htarget : (id, token) ∈ targets) : Confirmed ls id row.event := by
  obtain ⟨hinsert, hlatest, -⟩ := hrows.row id row hrow
  obtain ⟨self, record, hpub, heq⟩ := h.targets targets hmem _ htarget
  obtain ⟨rfl, rfl⟩ := Prod.mk.inj heq
  obtain ⟨ls₁, ls₂, rfl⟩ := List.append_of_mem hpub
  obtain ⟨⟨hclaimed, hevent⟩, rfl⟩ := h.published ls₁ ls₂ self record rfl
  refine ⟨ls₁, ls₂, record, rfl, rfl, ?_, ?_⟩
  · exact hrows.unique _ _ _ (mem_append_left _ hevent) hinsert
  · exact latestClaim_of_prefix (htokens.nodup _) (hlatest _ hlocked) hclaimed

end Records

namespace Rows

theorem init (options : ρ → Options) : Rows [] (State.initial options) where
  row := by simp [State.initial]
  inserted := by simp
  unique := by simp

theorem insert_snoc {event : Event} (hl : ∀ event, l ≠ .insert id event) :
    .insert id event ∈ ls ++ [l] ↔ .insert id event ∈ ls := by
  constructor
  · grind
  · exact mem_append_left _

theorem of_rows (h : Rows ls s) (hl : ∀ id event, l ≠ .insert id event) (hnext : s'.nextId = s.nextId)
    (hrow : ∀ id row', s'.table id = some row' → ∃ row, s.table id = some row ∧
      row'.event = row.event ∧ (∀ t, row'.lockedBy = some t → latestClaim id (ls ++ [l]) = some t) ∧
      (row'.status = .published → Confirmed ls id row.event))
    (hgone : ∀ id row, s.table id = some row → s'.table id = none → Confirmed ls id row.event) :
    Rows (ls ++ [l]) s' where
  row := fun id row' hrow' => by
    obtain ⟨row, hold, hevent, hlocked, hpublished⟩ := hrow id row' hrow'
    rw [hevent]
    exact ⟨mem_append_left _ (h.row id row hold).1, hlocked, fun hp => (hpublished hp).mono l⟩
  inserted := fun id event hins => by
    rw [insert_snoc (hl id)] at hins
    obtain ⟨hlt, hcase⟩ := h.inserted id event hins
    refine ⟨hnext ▸ hlt, ?_⟩
    rcases hcase with ⟨row, hold⟩ | hconf
    · cases hnew : s'.table id with
      | some row' => exact .inl ⟨row', rfl⟩
      | none =>
        have hconf := hgone id row hold hnew
        rw [h.unique id row.event event (h.row id row hold).1 hins] at hconf
        exact .inr (hconf.mono l)
    · exact .inr (hconf.mono l)
  unique := fun id e e' he he' => by
    rw [insert_snoc (hl id)] at he he'
    exact h.unique id e e' he he'

theorem congr (h : Rows ls s) (hl : ∀ id event, l ≠ .insert id event) (hunclaimed : l.Unclaimed)
    (hnext : s'.nextId = s.nextId) (htable : s'.table = s.table) : Rows (ls ++ [l]) s' := by
  refine h.of_rows hl hnext (fun id row hrow => ?_) fun id row hrow hnone => ?_
  · rw [htable] at hrow
    rw [latestClaim_snoc hunclaimed]
    exact ⟨row, hrow, rfl, (h.row id row hrow).2⟩
  · simp_all

theorem insert {event : Event} {relays : ρ → Option (Relay ρ)} {network : Multiset (Statement ρ)}
    {now : ℕ} (h : Rows ls s) (hid : s.nextId ≤ id) :
    Rows (ls ++ [.insert id event])
      ⟨now, id + 1, Function.update s.table id (some (.fresh event now)), network, relays⟩ := by
  have hmem : ∀ {i e}, .insert i e ∈ ls ++ [.insert id event] → .insert i e ∈ ls ∨ i = id ∧ e = event := by
    simp_all
  have hfresh : ∀ e, .insert id e ∉ ls := fun e he => by
    have := (h.inserted id e he).1
    omega
  constructor
  · intro i row hrow
    rw [latestClaim_snoc (by simp [Label.Unclaimed])]
    by_cases hi : i = id
    · subst hi
      simp only [update_self, Option.some.injEq] at hrow
      subst hrow
      exact ⟨mem_append_right _ (mem_singleton_self _), fun t ht => (by cases ht),
        fun hp => by cases hp⟩
    · simp only [update_of_ne hi] at hrow
      obtain ⟨hins, hlocked, hconf⟩ := h.row i row hrow
      exact ⟨mem_append_left _ hins, hlocked, fun hp => (hconf hp).mono _⟩
  · intro i e hie
    rcases hmem hie with hie | ⟨rfl, rfl⟩
    · obtain ⟨hlt, hcase⟩ := h.inserted i e hie
      refine ⟨Nat.lt_succ_of_le (hlt.le.trans hid), ?_⟩
      rcases hcase with ⟨row, hrow⟩ | hconf
      · exact .inl ⟨row, (update_of_ne (by omega) _ _).trans hrow⟩
      · exact .inr (hconf.mono _)
    · exact ⟨Nat.lt_succ_self _, .inl ⟨_, update_self _ _ _⟩⟩
  · intro i e e' he he'
    rcases hmem he with he | ⟨rfl, rfl⟩ <;> rcases hmem he' with he' | ⟨h₁, h₂⟩
    · exact h.unique i e e' he he'
    · exact absurd (h₁ ▸ he) (hfresh e)
    · exact absurd he' (hfresh e')
    · exact h₂.symm

theorem claim {token : Token ρ} {leaseMs now : ℕ} {ids : List ℕ} (h : Rows ls s)
    (htable : s'.table = claimRows token leaseMs now ids s.table) (hnext : s'.nextId = s.nextId) :
    Rows (ls ++ [.claim token ids]) s' := by
  refine h.of_rows (by simp) hnext (fun id row' hrow' => ?_) fun id row hrow hnone => ?_
  · rw [htable, claimRows] at hrow'
    rw [latestClaim_claim]
    split at hrow'
    · next hid =>
      obtain ⟨row, hrow, rfl⟩ := Option.map_eq_some_iff.1 hrow'
      refine ⟨row, hrow, rfl, fun t ht => ?_, (h.row id row hrow).2.2⟩
      cases ht
      exact if_pos hid
    · next hid =>
      rw [if_neg hid]
      exact ⟨row', hrow', rfl, (h.row id row' hrow').2⟩
  · rw [htable, claimRows, hrow] at hnone
    split at hnone <;> cases hnone

variable [DecidableEq ρ] {codec : Codec} {options : ρ → Options}

theorem execute {m : Mutation ρ} (h : Rows ls s) (htokens : Tokens ls s) (hrecords : Records ls s)
    (hmem : .mutation m ∈ s.network) (htable : s'.table = m.apply s.now s.table)
    (hnext : s'.nextId = s.nextId) : Rows (ls ++ [.execute m]) s' := by
  refine h.of_rows (by simp) hnext (fun id row' hrow' => ?_) fun id row hrow hnone => ?_
  · rw [latestClaim_snoc (by simp [Label.Unclaimed])]
    rw [htable] at hrow'
    cases hrow : s.table id with
    | none =>
      rw [m.apply_none s.now hrow] at hrow'
      cases hrow'
    | some row =>
      obtain ⟨-, hlocked, hconf⟩ := h.row id row hrow
      rcases m.apply_cases s.now hrow with heq | ⟨token, row₁, htarget, htoken, -, heq, hch⟩
      · rw [heq] at hrow'
        cases hrow'
        exact ⟨_, rfl, rfl, hlocked, hconf⟩
      · rw [heq] at hrow'
        cases hrow'
        refine ⟨row, rfl, hch.event, fun t ht => ?_, fun hp => ?_⟩
        · rcases hch.lockedBy with hnone | hsame
          · rw [hnone] at ht
            cases ht
          · exact hlocked t (hsame ▸ ht)
        · obtain ⟨targets, rfl⟩ := hch.published hp
          exact hrecords.confirm htokens h hrow htoken hmem htarget
  · rw [htable] at hnone
    rcases m.apply_cases s.now hrow with heq | ⟨_, _, _, _, _, heq, _⟩ <;>
    · rw [heq] at hnone
      cases hnone

omit [DecidableEq ρ] in
theorem cleanup {ids : List ℕ} {retentionHours now : ℕ} (h : Rows ls s)
    (htable : s'.table = cleanupPublished ids retentionHours now s.table)
    (hnext : s'.nextId = s.nextId) : Rows (ls ++ [.cleanup]) s' := by
  refine h.of_rows (by simp) hnext (fun id row hrow => ?_) fun id row hrow hnone => ?_
  · rw [htable, cleanupPublished] at hrow
    rw [latestClaim_snoc (by simp [Label.Unclaimed])]
    split at hrow
    · cases hrow
    · exact ⟨row, hrow, rfl, (h.row id row hrow).2⟩
  · rw [htable, cleanupPublished] at hnone
    split at hnone
    · next hclean =>
      refine (h.row id row hrow).2.2 ?_
      rw [hrow, Option.any_some, Row.cleanable, Bool.and_eq_true] at hclean
      exact eq_of_beq hclean.2.1
    · rw [hrow] at hnone
      cases hnone

theorem step (h : Rows ls s) (htokens : Tokens ls s) (hrecords : Records ls s)
    (hs : Step codec options s l s') : Rows (ls ++ [l]) s' := by
  cases hs with
  | tick _ => exact h.congr (by simp) (by simp [Label.Unclaimed]) rfl rfl
  | insert hid => exact h.insert hid
  | @relay _ _ _ effect _ _ =>
    exact h.congr (by cases effect <;> simp [Effect.label]) (Tokens.effect_unclaimed _ _) rfl rfl
  | crash _ => exact h.congr (by simp) (by simp [Label.Unclaimed]) rfl rfl
  | claim _ _ _ => exact h.claim rfl rfl
  | lateClaim _ _ => exact h.claim rfl rfl
  | execute hnetwork => exact h.execute htokens hrecords (hnetwork ▸ mem_cons_self _ _) rfl rfl
  | cleanup _ _ => exact h.cleanup rfl rfl
  | drop _ => exact h.congr (by simp) (by simp [Label.Unclaimed]) rfl rfl

end Rows

end Rows

/-! ## Whole runs -/

section Runs

variable {s s' : State ρ}

/-- What a step may do to a row: the latest claimant alone changes it by a statement, its attempts do
not get fewer, a settled status stays, only confirmed events are marked published, and only
published rows are deleted. -/
structure RowStep (ls : List (Label ρ)) (l : Label ρ) (id : ℕ) (before after : Option (Row ρ)) : Prop where
  fenced : ∀ m, l = .execute m → after ≠ before →
    ∃ token, (id, token) ∈ m.targets ∧ latestClaim id ls = some token
  deleted : ∀ row, before = some row → after = none → row.status = .published
  kept : ∀ row row', before = some row → after = some row' → row'.event = row.event ∧
    row.attemptCount ≤ row'.attemptCount ∧ (row.status.active = false → row'.status = row.status) ∧
    (row.status ≠ .published → row'.status = .published → Confirmed ls id row.event)

theorem RowStep.refl (hl : ∀ m, l ≠ .execute m) (before : Option (Row ρ)) :
    RowStep ls l id before before where
  fenced := fun m hm => absurd hm (hl m)
  deleted := fun row hrow hnone => by
    rw [hrow] at hnone
    cases hnone
  kept := fun row row' hrow hrow' => by
    simp_all

theorem RowStep.claim {token t : Token ρ} {leaseMs now limit : ℕ} {ids ids' : List ℕ} {table : Table ρ}
    (hsel : Selects limit now table ids) :
    RowStep ls (.claim t ids') id (table id) (claimRows token leaseMs now ids table id) := by
  by_cases hid : id ∈ ids
  · obtain ⟨row, hrow, -⟩ := hsel.claimable id hid
    rw [claimRows, if_pos hid, hrow, Option.map_some]
    refine ⟨by simp, by simp, fun row₁ row' h₁ h₂ => ?_⟩
    cases h₁
    cases h₂
    exact ⟨rfl, le_rfl, fun _ => rfl, fun hne heq => absurd heq hne⟩
  · rw [claimRows, if_neg hid]
    exact .refl (by simp) _

theorem RowStep.cleanup (ids : List ℕ) (retentionHours now id : ℕ) (table : Table ρ) :
    RowStep ls .cleanup id (table id) (cleanupPublished ids retentionHours now table id) := by
  by_cases hclean : id ∈ ids ∧ (table id).any (·.cleanable retentionHours now) = true
  · rw [cleanupPublished, if_pos hclean]
    refine ⟨by simp, fun row hrow _ => ?_, by simp⟩
    rw [hrow, Option.any_some, Row.cleanable, Bool.and_eq_true] at hclean
    exact eq_of_beq hclean.2.1
  · rw [cleanupPublished, if_neg hclean]
    exact .refl (by simp) _

variable [DecidableEq ρ] {codec : Codec} {options : ρ → Options}

theorem RowStep.execute {m : Mutation ρ} (htokens : Tokens ls s) (hrecords : Records ls s)
    (hrows : Rows ls s) (hmem : .mutation m ∈ s.network) (id : ℕ) :
    RowStep ls (.execute m) id (s.table id) (m.apply s.now s.table id) := by
  cases hrow : s.table id with
  | none =>
    rw [m.apply_none s.now hrow]
    exact ⟨fun _ _ hne => absurd rfl hne, by simp, by simp⟩
  | some row =>
    rcases m.apply_cases s.now hrow with heq | ⟨token, row₁, htarget, htoken, hactive, heq, hch⟩
    · rw [heq]
      refine ⟨fun _ _ hne => absurd rfl hne, by simp, fun row₁ row' h₁ h₂ => ?_⟩
      simp_all
    · rw [heq]
      refine ⟨fun m' hm' _ => ?_, by simp, fun row₂ row' h₁ h₂ => ?_⟩
      · cases hm'
        exact ⟨token, htarget, (hrows.row id row hrow).2.1 token htoken⟩
      · cases h₁
        cases h₂
        refine ⟨hch.event, hch.attempts, fun hnot => ?_, fun _ hp => ?_⟩
        · simp_all
        · obtain ⟨targets, rfl⟩ := hch.published hp
          exact hrecords.confirm htokens hrows hrow htoken hmem htarget

theorem Step.rowStep (htokens : Tokens ls s) (hrecords : Records ls s) (hrows : Rows ls s)
    (hs : Step codec options s l s') (id : ℕ) : RowStep ls l id (s.table id) (s'.table id) := by
  cases hs with
  | tick _ => exact .refl (by simp) _
  | @insert i event hi =>
    by_cases hne : id = i
    · have hnone : s.table i = none := Option.eq_none_iff_forall_ne_some.2 fun row hrow => by
        have := (hrows.inserted i _ (hrows.row i row hrow).1).1
        omega
      rw [hne, hnone]
      exact ⟨by simp, by simp, by simp⟩
    · have hsame : Function.update s.table i (some (.fresh event s.now)) id = s.table id :=
        update_of_ne hne _ _
      simp only [hsame]
      exact .refl (by simp) _
  | @relay _ _ _ effect _ _ => exact .refl (by cases effect <;> simp [Effect.label]) _
  | crash _ => exact .refl (by simp) _
  | claim _ _ hsel => exact .claim hsel
  | lateClaim _ hsel => exact .claim hsel
  | execute hnetwork =>
    exact .execute htokens hrecords hrows (hnetwork ▸ mem_cons_self _ _) id
  | cleanup _ _ => exact .cleanup _ _ _ id _
  | drop _ => exact .refl (by simp) _

theorem fenced (hrun : Run (Step codec options) (.initial options) ls s) :
    Tokens ls s ∧ Records ls s ∧ Rows ls s :=
  hrun.history (I := fun ls s => Tokens ls s ∧ Records ls s ∧ Rows ls s)
    (fun _ _ _ _ h hs => ⟨h.1.step hs, h.2.1.step h.1 h.2.2 hs, h.2.2.step h.1 h.2.1 hs⟩)
    ⟨.init options, .init options, .init options⟩

end Runs

/-! A run of one relay that publishes one event. -/

def Options.small : Options where
  allowedTopic := "t"
  batchSize := 1
  publishBatchSize := 1
  workerThreads := 1
  maxInflight := 1
  leaseMs := 5
  retryBaseMs := 1
  retryMaxMs := 1
  publishedRetentionHours := 1
  cleanupBatchSize := 1
  batchSize_pos := Nat.one_pos
  publishBatchSize_pos := Nat.one_pos
  publishBatchSize_le := by decide
  workerThreads_pos := Nat.one_pos
  batchSize_le := Nat.one_pos
  leaseMs_pos := by decide

def Event.sample : Event := ⟨"e", "k", 1, "a", "i", "p", "t", "k", "e", ""⟩

def Codec.sample : Codec := ⟨fun _ => .ok ⟨1, "e", "k", "a", "i", "p"⟩, fun _ => 0⟩

def Reaches (options : Options) (ls : List (Label Unit)) (now : ℕ) (row : Row Unit)
    (network : Multiset (Statement Unit)) (relay : Relay Unit) : Prop :=
  ∃ s : State Unit, Run (Step .sample fun _ => options) (.initial fun _ => options) ls s ∧
    s.now = now ∧ s.table 1 = some row ∧ s.network = network ∧ s.relays () = some relay

namespace Reaches

variable {options : Options} {ls : List (Label Unit)} {now : ℕ} {row : Row Unit}
  {network : Multiset (Statement Unit)} {relay relay' : Relay Unit} {effect : Effect Unit}

theorem insert (options : Options) :
    Reaches options [.insert 1 .sample] 0 (.fresh .sample 0) 0 (.started options) :=
  ⟨_, .single (.insert (Nat.le_refl 1)), rfl, rfl, rfl, rfl⟩

theorem tick (h : Reaches options ls now row network relay) (n : ℕ) :
    Reaches options (ls ++ [.silent]) (now + n) row network relay := by
  obtain ⟨s, hrun, rfl, hrow, hnetwork, hrelay⟩ := h
  exact ⟨_, hrun.snoc (.tick (Nat.le_add_right _ _)), rfl, hrow, hnetwork, hrelay⟩

theorem move (h : Reaches options ls now row network relay)
    (hs : Relay.Step .sample options () relay effect relay') :
    Reaches options (ls ++ [effect.label ()]) now row (effect.sent + network) relay' := by
  obtain ⟨s, hrun, hnow, hrow, rfl, hrelay⟩ := h
  exact ⟨_, hrun.snoc (.relay hrelay hs), hnow, hrow, rfl, by simp⟩

theorem claim {size : ℕ} {token : Token Unit} (h : Reaches options ls now row network relay)
    (hpoll : relay.poll = .claiming size token) (hclaimable : row.claimable now = true)
    (hlimit : 1 ≤ min options.batchSize (options.maxInflight - size)) :
    Reaches options (ls ++ [.claim token [1]]) now (row.claim token options.leaseMs now) network
      { relay with poll := .claimed size [⟨1, row.event, row.attemptCount, token⟩] } := by
  obtain ⟨s, hrun, rfl, hrow, rfl, hrelay⟩ := h
  have hsel : Selects (min options.batchSize (options.maxInflight - size)) s.now s.table [1] :=
    ⟨List.pairwise_singleton _ _, hlimit, fun id hid => by
      cases List.mem_singleton.1 hid
      exact ⟨row, hrow, hclaimable⟩⟩
  refine ⟨_, hrun.snoc (.claim hrelay hpoll hsel), rfl, ?_, rfl, ?_⟩
  · simp [claimRows, hrow]
  · simp [claimRecords, hrow]

theorem execute {m : Mutation Unit} {row' : Row Unit}
    (h : Reaches options ls now row (.mutation m ::ₘ network) relay)
    (hrow' : ∀ table : Table Unit, table 1 = some row → m.apply now table 1 = some row') :
    Reaches options (ls ++ [.execute m]) now row' network relay := by
  obtain ⟨s, hrun, rfl, hrow, hnetwork, hrelay⟩ := h
  exact ⟨_, hrun.snoc (.execute hnetwork), rfl, hrow' _ hrow, rfl, hrelay⟩

end Reaches

def Relay.sole (claimGeneration : ℕ) (inflight : Finmap fun _ : ℕ => Token Unit)
    (queue : List (Record Unit)) (poll : Poll Unit) (worker : Worker Unit) : Relay Unit :=
  ⟨true, false, false, claimGeneration, inflight, queue, poll, {worker}, .waiting, .none⟩

def Record.sample : Record Unit := ⟨1, .sample, 0, ⟨(), 1⟩⟩

end TinyImx.Outbox
