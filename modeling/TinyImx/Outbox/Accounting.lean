import Mathlib.Data.Finset.Card
import TinyImx.Outbox.Fencing

/-!
# What a relay has in flight

`inflight_` is keyed by the row, the queue holds claims.  As long as a relay is not handed a row of
which it still has a record, both are the same and `max_inflight` bounds them.  When a lease expires
under a queued record and the relay claims the row again, the first of the two records that finishes
takes the entry of the other with it.
-/

namespace TinyImx.Outbox

open Multiset (add_cons card card_cons card_map coe_add coe_nil cons_bind cons_coe
  eq_of_mem_replicate map_coe map_cons mem_add mem_bind mem_coe mem_cons_of_mem mem_map)

variable {ρ : Type} {codec : Codec} {self : ρ} {id : ℕ} {ls : List (Label ρ)} {l : Label ρ}

section Latest

variable [DecidableEq ρ]

def latestClaimBy (self : ρ) (id : ℕ) (ls : List (Label ρ)) : Option (Token ρ) :=
  ((claimsOf id ls).filter fun token => token.relay = self).getLast?

theorem latestClaimBy_snoc (hl : l.Unclaimed) :
    latestClaimBy self id (ls ++ [l]) = latestClaimBy self id ls := by
  rw [latestClaimBy, claimsOf_snoc hl, latestClaimBy]

theorem latestClaimBy_claim (ls : List (Label ρ)) (token : Token ρ) (ids : List ℕ) :
    latestClaimBy self id (ls ++ [.claim token ids]) =
      if id ∈ ids ∧ token.relay = self then some token else latestClaimBy self id ls := by
  rw [latestClaimBy, claimsOf_append, claimsOf_claim, List.filter_append]
  by_cases hid : id ∈ ids
  · by_cases hself : token.relay = self
    · simp [hid, hself]
    · simp [hid, hself, latestClaimBy]
  · simp [hid, latestClaimBy]

end Latest

/-! ## The life of a relay -/

def Worker.unfinished : Worker ρ → List (Record ρ)
  | .processing items _ _ => items
  | .finishing rest => rest
  | _ => []

def Poll.handed : Poll ρ → List (Record ρ)
  | .noted records => records
  | _ => []

def Poll.Free (poll : Poll ρ) : Prop :=
  (∀ size token, poll ≠ .claiming size token) ∧ ∀ size records, poll ≠ .claimed size records

variable {inflight : Finmap fun _ : ℕ => Token ρ}

namespace Relay

variable {options : Options} {relay relay' : Relay ρ} {effect : Effect ρ}

def processing (relay : Relay ρ) : Multiset (Record ρ) :=
  relay.workers.bind fun w => (↑w.unfinished : Multiset (Record ρ))

def Joined (relay : Relay ρ) : Prop :=
  relay.shutdown ≠ .none ∧ relay.shutdown ≠ .joining

structure Life (options : Options) (relay : Relay ρ) : Prop where
  workers : Multiset.card relay.workers = options.workerThreads
  joined : relay.Joined → relay.poll = .exited
  stopped : relay.workerStop = true → relay.poll = .exited
  exited : .exited ∈ relay.workers → relay.workerStop = true ∧ relay.queue = []
  returned : ∀ drained, relay.shutdown = .renewing drained ∨ relay.shutdown = .returned drained →
    ∀ w ∈ relay.workers, w = .exited

namespace Life

theorem init (options : Options) : Life options (.started options : Relay ρ) where
  workers := Multiset.card_replicate _ _
  joined := fun h => absurd rfl h.1
  stopped := fun h => by cases h
  exited := fun h => by
    cases eq_of_mem_replicate h
  returned := fun drained h => by rcases h with h | h <;> cases h

theorem poll {poll : Poll ρ} {claimGeneration : ℕ} {inflight : Finmap fun _ : ℕ => Token ρ}
    {queue : List (Record ρ)} (h : Life options relay) (hrunning : relay.poll ≠ .exited) :
    Life options { relay with poll, claimGeneration, inflight, queue } where
  workers := h.workers
  joined := fun hj => absurd (h.joined hj) hrunning
  stopped := fun hs => absurd (h.stopped hs) hrunning
  exited := fun he => absurd (h.stopped (h.exited he).1) hrunning
  returned := h.returned

theorem worker {w w' : Worker ρ} {workers : Multiset (Worker ρ)} {queue : List (Record ρ)}
    {inflight : Finmap fun _ : ℕ => Token ρ} (h : Life options relay)
    (hw : relay.workers = w ::ₘ workers) (hne : w ≠ .exited)
    (hexit : w' = .exited → relay.workerStop = true ∧ relay.queue = [])
    (hqueue : relay.queue = [] → queue = []) :
    Life options { relay with workers := w' ::ₘ workers, queue, inflight } where
  workers := by
    rw [card_cons, ← h.workers, hw, card_cons]
  joined := h.joined
  stopped := h.stopped
  exited := fun he => by
    have hold : relay.workerStop = true ∧ relay.queue = [] := by
      rcases Multiset.mem_cons.1 he with he | he
      · exact hexit he.symm
      · exact h.exited (hw ▸ mem_cons_of_mem he)
    exact ⟨hold.1, hqueue hold.2⟩
  returned := fun drained hr => absurd (h.returned drained hr w (hw ▸ Multiset.mem_cons_self _ _)) hne

theorem renew {renew : Renew ρ} (h : Life options relay) : Life options { relay with renew } :=
  ⟨h.workers, h.joined, h.stopped, h.exited, h.returned⟩

theorem shutdown {shutdown : Shutdown ρ} {workerStop renewStop : Bool} {queue : List (Record ρ)}
    (h : Life options relay) (hpoll : relay.poll = .exited)
    (hstop : relay.workerStop = true → workerStop = true) (hqueue : relay.queue = [] → queue = [])
    (hall : ∀ drained, shutdown = .renewing drained ∨ shutdown = .returned drained →
      ∀ w ∈ relay.workers, w = .exited) :
    Life options { relay with shutdown, workerStop, renewStop, queue, inflight } where
  workers := h.workers
  joined := fun _ => hpoll
  stopped := fun _ => hpoll
  exited := fun he => ⟨hstop (h.exited he).1, hqueue (h.exited he).2⟩
  returned := hall

theorem step (h : Life options relay) (hs : Relay.Step codec options self relay effect relay') :
    Life options relay' := by
  have hjoined : relay.Joined → relay.poll = .exited := h.joined
  cases hs with
  | limited hpoll _ _ => exact h.poll (by simp [hpoll])
  | sendClaim hpoll _ _ _ => exact h.poll (by simp [hpoll])
  | loseClaim hpoll => exact h.poll (by simp [hpoll])
  | note hpoll => exact h.poll (by simp [hpoll])
  | push hpoll => exact h.poll (by simp [hpoll])
  | cleanup hpoll => exact h.poll (by simp [hpoll])
  | again hpoll => exact h.poll (by simp [hpoll])
  | exitPoll hpoll _ => exact h.poll (by simp [hpoll])
  | take hw hne _ => exact h.worker hw (by simp) (by simp) fun hnil => absurd hnil hne
  | refuse hw _ => exact h.worker hw (by simp) (by simp) id
  | confirm hw _ => exact h.worker hw (by simp) (by simp) id
  | mark hw _ => exact h.worker hw (by simp) (by simp) id
  | noMark hw => exact h.worker hw (by simp) (by simp) id
  | finish hw => exact h.worker hw (by simp) (by simp) id
  | finished hw => exact h.worker hw (by simp) (by simp) id
  | exitWorker hw hqueue hstop => exact h.worker hw (by simp) (fun _ => ⟨hstop, hqueue⟩) id
  | snapshot _ _ _ => exact h.renew
  | renew _ => exact h.renew
  | renewed _ => exact h.renew
  | exitRenew _ _ => exact h.renew
  | shutdown _ =>
    exact ⟨h.workers, fun hj => absurd rfl hj.2, h.stopped, h.exited, fun drained hr => by
      rcases hr with hr | hr <;> cases hr⟩
  | joined _ hpoll => exact h.shutdown hpoll id id (by simp)
  | drained hsh _ => exact h.shutdown (hjoined (by simp [Joined, hsh])) (fun _ => rfl) id (by simp)
  | abandon hsh => exact h.shutdown (hjoined (by simp [Joined, hsh])) id (fun _ => rfl) (by simp)
  | release hsh => exact h.shutdown (hjoined (by simp [Joined, hsh])) id id (by simp)
  | abandoned hsh => exact h.shutdown (hjoined (by simp [Joined, hsh])) (fun _ => rfl) id (by simp)
  | joinWorkers hsh hall =>
    exact h.shutdown (hjoined (by simp [Joined, hsh])) id id fun _ _ => hall
  | joinRenew hsh _ =>
    exact h.shutdown (hjoined (by simp [Joined, hsh])) id id fun _ _ => h.returned _ (.inl hsh)

theorem idle {drained : Bool} (h : Life options relay) (hr : relay.shutdown = .returned drained) :
    relay.queue = [] ∧ relay.processing = 0 := by
  have hall := h.returned drained (.inr hr)
  constructor
  · have hpos : 0 < card relay.workers := h.workers ▸ options.workerThreads_pos
    obtain ⟨w, hw⟩ := Multiset.card_pos_iff_exists_mem.1 hpos
    exact (h.exited (hall w hw ▸ hw)).2
  · refine Multiset.eq_zero_of_forall_notMem fun record hmem => ?_
    obtain ⟨w, hw, hr⟩ := mem_bind.1 hmem
    rw [hall w hw] at hr
    cases hr

end Life

/-! ## The records in flight -/

def custody (relay : Relay ρ) : Multiset (Record ρ) :=
  ↑relay.queue + relay.processing + ↑relay.poll.handed + ↑relay.shutdown.records

theorem custody_worker {w w' : Worker ρ} {workers : Multiset (Worker ρ)} {queue : List (Record ρ)}
    (hw : relay.workers = w ::ₘ workers)
    (hsame : (↑queue + ↑w'.unfinished : Multiset (Record ρ)) = ↑relay.queue + ↑w.unfinished) :
    custody { relay with workers := w' ::ₘ workers, queue, inflight } = relay.custody := by
  unfold custody processing
  rw [hw, cons_bind, cons_bind, ← add_assoc, ← add_assoc, hsame]

end Relay

variable {options : Options} {relay relay' : Relay ρ} {effect : Effect ρ}

/-- `inflight_` has exactly the entries of the records in flight, one for each, with the tokens of
the latest claims. -/
structure Ledger [DecidableEq ρ] (options : Options) (me : ρ) (ls : List (Label ρ)) (relay : Relay ρ) :
    Prop where
  nodup : (relay.custody.map Record.outboxId).Nodup
  entry : ∀ record ∈ relay.custody, relay.inflight.lookup record.outboxId = some record.lockedBy
  keys : relay.inflight.keys = (relay.custody.map Record.outboxId).toFinset
  bounded : relay.inflight.keys.card ≤ options.maxInflight
  claiming : ∀ size token, relay.poll = .claiming size token →
    relay.inflight.keys.card ≤ size ∧ size ≤ options.maxInflight - options.batchSize
  claimed : ∀ size records, relay.poll = .claimed size records →
    relay.inflight.keys.card ≤ size ∧ size ≤ options.maxInflight - options.batchSize ∧
    records.length ≤ min options.batchSize (options.maxInflight - size) ∧
    (records.map Record.outboxId).Nodup ∧
    ∀ record ∈ records, ∀ record' ∈ relay.custody, record.outboxId ≠ record'.outboxId
  latest : ∀ record, relay.Holds record →
    latestClaimBy me record.outboxId ls = some record.lockedBy

theorem Relay.holds_of_custody {record : Record ρ} (h : record ∈ relay.custody) : relay.Holds record := by
  rcases mem_add.1 h with h | h
  · rcases mem_add.1 h with h | h
    · rcases mem_add.1 h with h | h
      · exact .inr (.inl (mem_coe.1 h))
      · obtain ⟨w, hw, hr⟩ := mem_bind.1 h
        refine .inr (.inr (.inl ⟨w, hw, ?_⟩))
        cases w with
        | processing items rest published =>
          exact List.mem_append_left _ (List.mem_append_left _ (mem_coe.1 hr))
        | finishing rest => exact mem_coe.1 hr
        | idle => cases mem_coe.1 hr
        | exited => cases mem_coe.1 hr
    · refine .inl ?_
      cases hpoll : relay.poll with
      | noted records =>
        rw [hpoll] at h
        exact mem_coe.1 h
      | _ =>
        rw [hpoll] at h
        cases mem_coe.1 h
  · exact .inr (.inr (.inr (mem_coe.1 h)))

theorem claimRecords_sublist (token : Token ρ) (ids : List ℕ) (table : Table ρ) :
    ((claimRecords token ids table).map Record.outboxId).Sublist ids := by
  induction ids with
  | nil => exact .slnil
  | cons i ids ih =>
    cases hrow : table i with
    | none =>
      have hnone : claimRecords token (i :: ids) table = claimRecords token ids table := by
        simp [claimRecords, hrow]
      exact hnone ▸ ih.cons i
    | some row =>
      have hsome : claimRecords token (i :: ids) table =
          ⟨i, row.event, row.attemptCount, token⟩ :: claimRecords token ids table := by
        simp [claimRecords, hrow]
      simp_all

variable {records : List (Record ρ)}

theorem mem_noteRecords :
    id ∈ noteRecords records inflight ↔ id ∈ records.map Record.outboxId ∨ id ∈ inflight := by
  induction records generalizing inflight with
  | nil => simp [noteRecords]
  | cons record records ih =>
    have hcons : noteRecords (record :: records) inflight =
        noteRecords records (inflight.insert record.outboxId record.lockedBy) := rfl
    rw [hcons, ih, Finmap.mem_insert, List.map_cons, List.mem_cons]
    tauto

theorem lookup_noteRecords_of_notMem (h : id ∉ records.map Record.outboxId) :
    (noteRecords records inflight).lookup id = inflight.lookup id := by
  induction records generalizing inflight with
  | nil => rfl
  | cons record records ih =>
    rw [List.map_cons, List.mem_cons, not_or] at h
    have hcons : noteRecords (record :: records) inflight =
        noteRecords records (inflight.insert record.outboxId record.lockedBy) := rfl
    rw [hcons, ih h.2, Finmap.lookup_insert_of_ne _ h.1]

theorem lookup_noteRecords (hnodup : (records.map Record.outboxId).Nodup) :
    ∀ record ∈ records, (noteRecords records inflight).lookup record.outboxId = some record.lockedBy := by
  induction records generalizing inflight with
  | nil => simp
  | cons first records ih =>
    rw [List.map_cons, List.nodup_cons] at hnodup
    have hcons : noteRecords (first :: records) inflight =
        noteRecords records (inflight.insert first.outboxId first.lockedBy) := rfl
    intro record hr
    rw [hcons]
    rcases List.mem_cons.1 hr with rfl | hr
    · rw [lookup_noteRecords_of_notMem hnodup.1, Finmap.lookup_insert]
    · exact ih hnodup.2 record hr

namespace Ledger

variable [DecidableEq ρ]

theorem init (options : Options) : Ledger options self [] (.started options) := by
  have hcustody : Relay.custody (.started options : Relay ρ) = 0 := by
    refine Multiset.eq_zero_of_forall_notMem fun record hmem => ?_
    simp only [Relay.custody, Relay.started, Relay.processing, Poll.handed, Shutdown.records,
      coe_nil, zero_add, add_zero] at hmem
    obtain ⟨w, hw, hr⟩ := mem_bind.1 hmem
    rw [eq_of_mem_replicate hw] at hr
    cases hr
  refine ⟨by simp_all, by simp [hcustody], ?_, Nat.zero_le _, ?_, ?_, ?_⟩
  · rw [hcustody]
    rfl
  · exact fun size token h => by cases h
  · exact fun size records h => by cases h
  · rintro record (h | h | ⟨w, hw, h⟩ | h)
    · cases h
    · cases h
    · rw [eq_of_mem_replicate hw] at h
      cases h
    · cases h

theorem keep (h : Ledger options self ls relay) (hcustody : relay'.custody = relay.custody)
    (hinflight : relay'.inflight = relay.inflight) (hpoll : relay'.poll = relay.poll ∨ relay'.poll.Free)
    (hholds : ∀ record, relay'.Holds record → relay.Holds record) : Ledger options self ls relay' := by
  refine ⟨hcustody ▸ h.nodup, ?_, ?_, hinflight ▸ h.bounded, fun size token hp => ?_,
    fun size records hp => ?_, fun record hr => h.latest record (hholds record hr)⟩
  · rw [hcustody, hinflight]
    exact h.entry
  · rw [hcustody, hinflight]
    exact h.keys
  · rw [hinflight]
    rcases hpoll with heq | hfree
    · exact h.claiming size token (heq ▸ hp)
    · exact absurd hp (hfree.1 size token)
  · rw [hinflight, hcustody]
    rcases hpoll with heq | hfree
    · exact h.claimed size records (heq ▸ hp)
    · exact absurd hp (hfree.2 size records)

theorem card_keys (h : Ledger options self ls relay) :
    relay.inflight.keys.card = card relay.custody := by
  rw [h.keys, Multiset.toFinset_card_of_nodup h.nodup, card_map]

theorem finish {record : Record ρ} (h : Ledger options self ls relay)
    (hcustody : relay.custody = record ::ₘ relay'.custody)
    (hinflight : relay'.inflight = relay.inflight.erase record.outboxId) (hpoll : relay'.poll = relay.poll)
    (hholds : ∀ record, relay'.Holds record → relay.Holds record) : Ledger options self ls relay' := by
  have hnodup := h.nodup
  rw [hcustody, map_cons, Multiset.nodup_cons] at hnodup
  have hne : ∀ record' ∈ relay'.custody, record'.outboxId ≠ record.outboxId := fun record' hr heq =>
    hnodup.1 (heq ▸ Multiset.mem_map_of_mem _ hr)
  have hsub : ∀ record' ∈ relay'.custody, record' ∈ relay.custody := fun record' hr =>
    hcustody ▸ mem_cons_of_mem hr
  have hcard : relay'.inflight.keys.card ≤ relay.inflight.keys.card := by
    rw [hinflight, Finmap.keys_erase]
    exact Finset.card_erase_le
  refine ⟨hnodup.2, fun record' hr => ?_, ?_, hcard.trans h.bounded, fun size token hp => ?_,
    fun size records hp => ?_, fun record hr => h.latest record (hholds record hr)⟩
  · rw [hinflight, Finmap.lookup_erase_ne (hne record' hr)]
    exact h.entry record' (hsub record' hr)
  · rw [hinflight, Finmap.keys_erase, h.keys, hcustody, map_cons, Multiset.toFinset_cons]
    exact Finset.erase_insert (by simpa using hnodup.1)
  · obtain ⟨hle, hsize⟩ := h.claiming size token (hpoll ▸ hp)
    exact ⟨hcard.trans hle, hsize⟩
  · obtain ⟨hle, hsize, hlength, hrecords, hdisjoint⟩ := h.claimed size records (hpoll ▸ hp)
    exact ⟨hcard.trans hle, hsize, hlength, hrecords,
      fun r hr r' hr' => hdisjoint r hr r' (hsub r' hr')⟩

theorem note {size : ℕ} (h : Ledger options self ls relay)
    (hpoll : relay.poll = .claimed size records) :
    Ledger options self ls { relay with
      poll := .noted records
      inflight := noteRecords records relay.inflight } := by
  obtain ⟨hle, hsize, hlength, hrecords, hdisjoint⟩ := h.claimed size records hpoll
  have hcustody : Relay.custody { relay with
      poll := .noted records
      inflight := noteRecords records relay.inflight } = ↑records + relay.custody := by
    simp only [Relay.custody, Relay.processing, Poll.handed, hpoll, coe_nil, add_zero]
    ac_rfl
  have hkeys : (noteRecords records relay.inflight).keys =
      (((records : Multiset (Record ρ)) + relay.custody).map Record.outboxId).toFinset := by
    ext i
    rw [Finmap.mem_keys, mem_noteRecords, ← Finmap.mem_keys, h.keys]
    simp
  have hnodup : (((records : Multiset (Record ρ)) + relay.custody).map Record.outboxId).Nodup := by
    rw [Multiset.map_add, Multiset.nodup_add, map_coe]
    refine ⟨Multiset.coe_nodup.2 hrecords, h.nodup, Multiset.disjoint_left.2 fun {i} hi hi' => ?_⟩
    obtain ⟨r, hr, rfl⟩ := List.mem_map.1 (mem_coe.1 hi)
    obtain ⟨r', hr', heq⟩ := mem_map.1 hi'
    exact hdisjoint r hr r' hr' heq.symm
  have hcard : (noteRecords records relay.inflight).keys.card =
      records.length + relay.inflight.keys.card := by
    rw [hkeys, Multiset.toFinset_card_of_nodup hnodup, card_map, Multiset.card_add,
      h.card_keys, Multiset.coe_card]
  refine ⟨hcustody ▸ hnodup, fun record hr => ?_, hcustody ▸ hkeys, ?_, fun _ _ hp => (by cases hp),
    fun _ _ hp => (by cases hp), fun record hr => h.latest record ?_⟩
  · rw [hcustody] at hr
    rcases mem_add.1 hr with hr | hr
    · exact lookup_noteRecords hrecords record (mem_coe.1 hr)
    · refine (lookup_noteRecords_of_notMem fun hmem => ?_).trans (h.entry record hr)
      obtain ⟨r, hr', heq⟩ := List.mem_map.1 hmem
      exact hdisjoint r hr' record hr heq
  · rw [hcard]
    omega
  · exact hr.imp_left fun hp => by rwa [hpoll]

theorem sendClaim {token : Token ρ} {claimGeneration : ℕ} (h : Ledger options self ls relay)
    (hpoll : relay.poll = .head)
    (hle : relay.inflight.keys.card ≤ options.maxInflight - options.batchSize) :
    Ledger options self ls { relay with
      poll := .claiming relay.inflight.keys.card token
      claimGeneration } := by
  have hcustody : Relay.custody { relay with
      poll := .claiming relay.inflight.keys.card token
      claimGeneration } = relay.custody := by
    simp [Relay.custody, Relay.processing, Poll.handed, hpoll]
  refine ⟨hcustody ▸ h.nodup, hcustody ▸ h.entry, hcustody ▸ h.keys, h.bounded, fun size t hp => ?_,
    fun _ _ hp => (by cases hp), fun record hr => h.latest record ?_⟩
  · cases hp
    exact ⟨le_rfl, hle⟩
  · exact hr.imp_left fun hp => by cases hp

theorem step (h : Ledger options self ls relay)
    (hs : Relay.Step codec options self relay effect relay') : Ledger options self ls relay' := by
  have hholds : ∀ record, relay'.Holds record → relay.Holds record := fun record => hs.holds
  have hfree : ∀ {poll : Poll ρ}, poll = .tail ∨ poll = .head ∨ poll = .exited → poll.Free := by
    rintro poll (rfl | rfl | rfl) <;> exact ⟨by simp, by simp⟩
  cases hs with
  | limited hpoll _ _ =>
    exact h.keep (by simp [Relay.custody, Relay.processing, Poll.handed, hpoll]) rfl (.inr (hfree (.inl rfl)))
      hholds
  | sendClaim hpoll _ hle _ => exact h.sendClaim hpoll hle
  | loseClaim hpoll =>
    exact h.keep (by simp [Relay.custody, Relay.processing, Poll.handed, hpoll]) rfl (.inr (hfree (.inl rfl)))
      hholds
  | note hpoll => exact h.note hpoll
  | push hpoll =>
    refine h.keep ?_ rfl (.inr (hfree (.inl rfl))) hholds
    simp only [Relay.custody, Relay.processing, Poll.handed, hpoll, ← coe_add,
      coe_nil, add_zero]
    ac_rfl
  | cleanup hpoll =>
    exact h.keep (by simp [Relay.custody, Relay.processing, Poll.handed, hpoll]) rfl
      (.inr (hfree (.inr (.inl rfl)))) hholds
  | again hpoll =>
    exact h.keep (by simp [Relay.custody, Relay.processing, Poll.handed, hpoll]) rfl
      (.inr (hfree (.inr (.inl rfl)))) hholds
  | exitPoll hpoll _ =>
    exact h.keep (by simp [Relay.custody, Relay.processing, Poll.handed, hpoll]) rfl
      (.inr (hfree (.inr (.inr rfl)))) hholds
  | take hw _ hsplit =>
    refine h.keep (Relay.custody_worker hw ?_) rfl (.inl rfl) hholds
    rw [List.splitAt_eq] at hsplit
    cases hsplit
    simp only [Worker.unfinished, coe_nil, add_zero, coe_add]
    rw [Multiset.coe_eq_coe]
    exact List.perm_append_comm.trans (List.take_append_drop _ _ ▸ .refl _)
  | refuse hw _ => exact h.keep (Relay.custody_worker hw rfl) rfl (.inl rfl) hholds
  | confirm hw _ => exact h.keep (Relay.custody_worker hw rfl) rfl (.inl rfl) hholds
  | mark hw _ => exact h.keep (Relay.custody_worker hw rfl) rfl (.inl rfl) hholds
  | noMark hw => exact h.keep (Relay.custody_worker hw rfl) rfl (.inl rfl) hholds
  | @finish workers record rest hw =>
    have hcustody : relay.custody = record ::ₘ Relay.custody
        { relay.finishRecord record.outboxId with workers := .finishing rest ::ₘ workers } := by
      simp only [Relay.custody, Relay.processing, Relay.finishRecord, hw, cons_bind,
        Worker.unfinished, ← cons_coe, Multiset.cons_add, add_cons]
    exact h.finish hcustody rfl rfl hholds
  | finished hw => exact h.keep (Relay.custody_worker hw rfl) rfl (.inl rfl) hholds
  | exitWorker hw _ _ => exact h.keep (Relay.custody_worker hw rfl) rfl (.inl rfl) hholds
  | snapshot _ _ _ => exact h.keep rfl rfl (.inl rfl) hholds
  | renew _ => exact h.keep rfl rfl (.inl rfl) hholds
  | renewed _ => exact h.keep rfl rfl (.inl rfl) hholds
  | exitRenew _ _ => exact h.keep rfl rfl (.inl rfl) hholds
  | shutdown hsh =>
    refine h.keep ?_ rfl (.inl rfl) hholds
    rcases hsh with hsh | ⟨drained, hsh⟩ <;>
      simp [Relay.custody, Relay.processing, Shutdown.records, hsh]
  | joined hsh _ =>
    exact h.keep (by simp [Relay.custody, Relay.processing, Shutdown.records, hsh]) rfl (.inl rfl) hholds
  | drained hsh _ =>
    exact h.keep (by simp [Relay.custody, Relay.processing, Shutdown.records, hsh]) rfl (.inl rfl) hholds
  | abandon hsh =>
    refine h.keep ?_ rfl (.inl rfl) hholds
    simp only [Relay.custody, Relay.processing, Shutdown.records, hsh, coe_nil, zero_add, add_zero]
    ac_rfl
  | @release record rest hsh =>
    have hcustody : relay.custody = record ::ₘ Relay.custody
        { relay.finishRecord record.outboxId with shutdown := .abandoning rest } := by
      simp only [Relay.custody, Relay.processing, Relay.finishRecord, hsh, Shutdown.records,
        ← cons_coe, add_cons]
    exact h.finish hcustody rfl rfl hholds
  | abandoned hsh =>
    exact h.keep (by simp [Relay.custody, Relay.processing, Shutdown.records, hsh]) rfl (.inl rfl) hholds
  | joinWorkers hsh _ =>
    exact h.keep (by simp [Relay.custody, Relay.processing, Shutdown.records, hsh]) rfl (.inl rfl) hholds
  | joinRenew hsh _ =>
    exact h.keep (by simp [Relay.custody, Relay.processing, Shutdown.records, hsh]) rfl (.inl rfl) hholds

theorem label (h : Ledger options self ls relay)
    (hl : ∀ record, relay.Holds record →
      latestClaimBy self record.outboxId (ls ++ [l]) = latestClaimBy self record.outboxId ls) :
    Ledger options self (ls ++ [l]) relay :=
  { h with latest := fun record hr => (hl record hr).trans (h.latest record hr) }

theorem claim {size now : ℕ} {token : Token ρ} {ids : List ℕ} {table : Table ρ}
    (h : Ledger options self ls relay) (hpoll : relay.poll = .claiming size token)
    (hself : token.relay = self)
    (hsel : Selects (min options.batchSize (options.maxInflight - size)) now table ids)
    (hfresh : ∀ record, relay.Holds record → record.outboxId ∉ ids) :
    Ledger options self (ls ++ [.claim token ids])
      { relay with poll := .claimed size (claimRecords token ids table) } := by
  obtain ⟨hle, hsize⟩ := h.claiming size token hpoll
  have hcustody : Relay.custody { relay with poll := .claimed size (claimRecords token ids table) } =
      relay.custody := by
    simp [Relay.custody, Relay.processing, Poll.handed, hpoll]
  have hsub := claimRecords_sublist token ids table
  refine ⟨hcustody ▸ h.nodup, hcustody ▸ h.entry, hcustody ▸ h.keys, h.bounded,
    fun _ _ hp => (by cases hp), fun size' records hp => ?_, fun record hr => ?_⟩
  · cases hp
    refine ⟨hle, hsize, ?_, ?_, fun record hr record' hr' heq => ?_⟩
    · have hlength := hsub.length_le
      rw [List.length_map] at hlength
      exact hlength.trans hsel.length
    · exact (hsel.sorted.imp fun hlt => hlt.ne).sublist hsub
    · rw [hcustody] at hr'
      exact hfresh record' (Relay.holds_of_custody hr') (heq ▸ (claimRecords_mem hr).1)
  · rw [latestClaimBy_claim]
    rcases hr with hr | hr
    · obtain ⟨hid, htoken, -⟩ := claimRecords_mem hr
      rw [if_pos ⟨hid, hself⟩, htoken]
    · have hold : relay.Holds record := .inr hr
      rw [if_neg fun hboth => hfresh record hold hboth.1]
      exact h.latest record hold

end Ledger

/-! ## Whole runs -/

section Runs

variable [DecidableEq ρ] {options : ρ → Options} {s s' : State ρ}

def Fresh (me : ρ) (s : State ρ) (l : Label ρ) : Prop :=
  ∀ token ids relay, l = .claim token ids → token.relay = me → s.relays me = some relay →
    ∀ record, Relay.Holds relay record → record.outboxId ∉ ids

/-- The accounting of a relay: the records that are queued or being processed have their entries with
the latest tokens, they are bounded, and none is left when `ShutdownGraceful` has returned true. -/
structure Accounted (options : Options) (me : ρ) (ls : List (Label ρ)) (relay : Relay ρ) : Prop where
  entry : ∀ record, record ∈ relay.queue ∨ record ∈ relay.processing →
    ∃ token, relay.inflight.lookup record.outboxId = some token ∧
      latestClaimBy me record.outboxId ls = some token
  bounded : relay.queue.length + Multiset.card relay.processing ≤ options.maxInflight
  drained : relay.shutdown = .returned true → relay.queue = [] ∧ relay.processing = 0

/-- What a fresh step keeps for one relay. -/
theorem Step.ledger {me : ρ} (htokens : Tokens ls s)
    (h : ∀ relay, s.relays me = some relay → relay.Life (options me) ∧ Ledger (options me) me ls relay)
    (hs : Step codec options s l s') (hfresh : Fresh me s l) :
    ∀ relay, s'.relays me = some relay →
      relay.Life (options me) ∧ Ledger (options me) me (ls ++ [l]) relay := by
  have hkeep : l.Unclaimed → ∀ relay, s.relays me = some relay →
      relay.Life (options me) ∧ Ledger (options me) me (ls ++ [l]) relay := fun hl relay hrelay =>
    ⟨(h relay hrelay).1, (h relay hrelay).2.label fun _ _ => latestClaimBy_snoc hl⟩
  have hclaim : ∀ {token ids}, l = .claim token ids → ∀ relay, s.relays me = some relay →
      relay.Life (options me) ∧ Ledger (options me) me (ls ++ [l]) relay := by
    intro token ids hl relay hrelay
    refine ⟨(h relay hrelay).1, (h relay hrelay).2.label fun record hr => ?_⟩
    rw [hl, latestClaimBy_claim, if_neg]
    exact fun hboth => hfresh token ids relay hl hboth.2 hrelay record hr hboth.1
  cases hs with
  | tick _ => exact hkeep (by simp [Label.Unclaimed])
  | insert _ => exact hkeep (by simp [Label.Unclaimed])
  | @relay self relay relay' effect hrelay hstep =>
    intro r hr
    by_cases hne : me = self
    · subst hne
      simp only [Function.update_self] at hr
      cases hr
      obtain ⟨hlife, hledger⟩ := h relay hrelay
      exact ⟨hlife.step hstep,
        (hledger.step hstep).label fun _ _ => latestClaimBy_snoc (Tokens.effect_unclaimed _ _)⟩
    · simp only [Function.update_of_ne hne] at hr
      exact hkeep (Tokens.effect_unclaimed _ _) r hr
  | @crash self relay hrelay =>
    intro r hr
    by_cases hne : me = self
    · subst hne
      grind
    · simp only [Function.update_of_ne hne] at hr
      exact hkeep (by simp [Label.Unclaimed]) r hr
  | @claim self relay size token ids hrelay hpoll hsel =>
    intro r hr
    have hself := (htokens.claiming self relay token hrelay (by rw [Relay.claiming, hpoll])).1
    by_cases hne : me = self
    · subst hne
      simp only [Function.update_self] at hr
      cases hr
      obtain ⟨hlife, hledger⟩ := h relay hrelay
      exact ⟨hlife.poll (by simp [hpoll]),
        hledger.claim hpoll hself hsel (hfresh token ids relay rfl hself hrelay)⟩
    · simp only [Function.update_of_ne hne] at hr
      exact hclaim rfl r hr
  | lateClaim _ _ => exact hclaim rfl
  | execute _ => exact hkeep (by simp [Label.Unclaimed])
  | cleanup _ _ => exact hkeep (by simp [Label.Unclaimed])
  | drop _ => exact hkeep (by simp [Label.Unclaimed])

/-- In every run in which no claim of a relay takes effect on a row of which the relay still has a
record, the relay's accounting is right. -/
theorem inflight_accounted {me : ρ} {relay : Relay ρ}
    (hrun : Run (fun s l s' => Step codec options s l s' ∧ Fresh me s l) (.initial options) ls s)
    (hrelay : s.relays me = some relay) : Accounted (options me) me ls relay := by
  have hinv : Tokens ls s ∧ ∀ relay, s.relays me = some relay →
      relay.Life (options me) ∧ Ledger (options me) me ls relay := by
    refine hrun.history (I := fun ls s => Tokens ls s ∧ ∀ relay, s.relays me = some relay →
        relay.Life (options me) ∧ Ledger (options me) me ls relay)
      (fun ls s l s' h hs => ⟨h.1.step hs.1, hs.1.ledger h.1 h.2 hs.2⟩) ⟨.init options, ?_⟩
    intro relay hrelay
    cases hrelay
    exact ⟨.init _, .init _⟩
  obtain ⟨hlife, hledger⟩ := hinv.2 relay hrelay
  have hle : (↑relay.queue + relay.processing : Multiset (Record ρ)) ≤ relay.custody :=
    Multiset.le_iff_exists_add.2 ⟨_, add_assoc _ _ _⟩
  refine ⟨fun record hr => ?_, ?_, hlife.idle⟩
  · have hmem : record ∈ relay.custody :=
      Multiset.mem_of_le hle (Multiset.mem_add.2 (hr.imp_left Multiset.mem_coe.2))
    exact ⟨_, hledger.entry record hmem, hledger.latest record (Relay.holds_of_custody hmem)⟩
  · have hcard := Multiset.card_le_card hle
    rw [Multiset.card_add, Multiset.coe_card, ← hledger.card_keys] at hcard
    exact hcard.trans hledger.bounded

theorem fresh_of_claims_once {me : ρ} (hrun : Run (Step codec options) (.initial options) ls s)
    (honce : ∀ id, ((claimsOf id ls).filter fun token => token.relay = me).length ≤ 1) :
    Run (fun s l s' => Step codec options s l s' ∧ Fresh me s l) (.initial options) ls s := by
  induction hrun with
  | nil => exact .nil _
  | @snoc t u ls l hrun hs ih =>
    have hprefix : ∀ id, ((claimsOf id ls).filter fun token => token.relay = me).length ≤ 1 := fun id => by
      have h := honce id
      rw [claimsOf_append, List.filter_append, List.length_append] at h
      omega
    refine .snoc (ih hprefix) ⟨hs, fun token ids relay hl htoken hrelay record hholds hid => ?_⟩
    obtain ⟨-, hrecords, -⟩ := fenced hrun
    obtain ⟨⟨hclaimed, -⟩, hself⟩ := hrecords.known me relay record hrelay hholds
    have hone : 0 < ((claimsOf record.outboxId ls).filter fun token => token.relay = me).length :=
      List.length_pos_of_mem (List.mem_filter.2 ⟨hclaimed, by simpa using hself⟩)
    have h := honce record.outboxId
    rw [hl, claimsOf_append, claimsOf_claim, if_pos hid, List.filter_append, List.length_append] at h
    grind

end Runs

/-- A relay that has claimed the only row once and has its record in the queue. -/
theorem inflight_accounted_sole :
    ∃ ls, ∃ s : State Unit, ∃ relay, Run (Step .sample fun _ => .small) (.initial fun _ => .small) ls s ∧
      s.relays () = some relay ∧ relay.queue = [.sample] ∧ Accounted .small () ls relay := by
  have hsend : Reaches .small _ 0 _ 0 (.sole 1 ∅ [] (.claiming 0 ⟨(), 1⟩) .idle) :=
    (Reaches.insert .small).move (.sendClaim rfl rfl (by decide) rfl)
  have hclaim : Reaches .small _ 0 _ 0 (.sole 1 ∅ [] (.claimed 0 [.sample]) .idle) :=
    hsend.claim rfl rfl (by decide)
  have hpush : Reaches .small _ 0 _ 0 (.sole 1 (noteRecords [.sample] ∅) [.sample] .tail .idle) :=
    (hclaim.move (.note rfl)).move (.push rfl)
  obtain ⟨s, hrun, -, -, -, hrelay⟩ := hpush
  refine ⟨_, s, _, hrun, hrelay, rfl, inflight_accounted (fresh_of_claims_once hrun fun id => ?_) hrelay⟩
  refine (List.length_filter_le _ _).trans ?_
  simp only [claimsOf_append, claimsOf_claim]
  split <;> simp [claimsOf, Effect.label]

/-! Two claims of one row: with room for two records, the lease runs out under the first. -/

def Options.pair : Options := { Options.small with
  maxInflight := 2
  batchSize_le := by decide }

def Record.again : Record Unit := ⟨1, .sample, 0, ⟨(), 2⟩⟩

/-- A record is left in the queue without an entry. -/
theorem reclaimed_not_accounted :
    ∃ ls, ∃ s : State Unit, ∃ relay, Run (Step .sample fun _ => .pair) (.initial fun _ => .pair) ls s ∧
      s.relays () = some relay ∧ .again ∈ relay.queue ∧ ¬ Accounted .pair () ls relay := by
  have hsend : Reaches .pair _ 0 _ 0 (.sole 1 ∅ [] (.claiming 0 ⟨(), 1⟩) .idle) :=
    (Reaches.insert .pair).move (.sendClaim rfl rfl (by decide) rfl)
  have hclaim : Reaches .pair _ 0 _ 0 (.sole 1 ∅ [] (.claimed 0 [.sample]) .idle) :=
    hsend.claim rfl rfl (by decide)
  have hpush : Reaches .pair _ 6 _ 0 (.sole 1 (noteRecords [.sample] ∅) [.sample] .head .idle) :=
    (((hclaim.move (.note rfl)).move (.push rfl)).move (.again rfl)).tick 6
  have hsend₂ : Reaches .pair _ 6 _ 0
      (.sole 2 (noteRecords [.sample] ∅) [.sample] (.claiming 1 ⟨(), 2⟩) .idle) :=
    hpush.move (.sendClaim rfl rfl (by decide) rfl)
  have hclaim₂ : Reaches .pair _ 6 _ 0
      (.sole 2 (noteRecords [.sample] ∅) [.sample] (.claimed 1 [.again]) .idle) :=
    hsend₂.claim rfl rfl (by decide)
  have hpush₂ : Reaches .pair _ 6 _ 0
      (.sole 2 (noteRecords [.again] (noteRecords [.sample] ∅)) [.sample, .again] .tail .idle) :=
    (hclaim₂.move (.note rfl)).move (.push rfl)
  have htake : Reaches .pair _ 6 _ 0
      (.sole 2 (noteRecords [.again] (noteRecords [.sample] ∅)) [.again] .tail
        (.processing [.sample] [.sample] [])) :=
    hpush₂.move (.take rfl (by simp [Relay.sole]) rfl)
  have hconfirm : Reaches .pair _ 6 _ 0
      (.sole 2 (noteRecords [.again] (noteRecords [.sample] ∅)) [.again] .tail
        (.processing [.sample] [] [.sample])) :=
    htake.move (.confirm (show Relay.workers _ = .processing [.sample] [.sample] [] ::ₘ 0 from rfl)
      (show processRecord .sample .pair .sample .published = none from rfl))
  have hmark : Reaches .pair _ 6 _ (.mutation (.publish [Record.sample.target]) ::ₘ 0)
      (.sole 2 (noteRecords [.again] (noteRecords [.sample] ∅)) [.again] .tail (.finishing [.sample])) :=
    hconfirm.move (.mark (show Relay.workers _ = .processing [.sample] [] [.sample] ::ₘ 0 from rfl)
      (List.cons_ne_nil _ _))
  have hfinish : Reaches .pair _ 6 _ _
      (.sole 2 ((noteRecords [.again] (noteRecords [.sample] ∅)).erase 1) [.again] .tail
        (.finishing [])) :=
    hmark.move (.finish (show Relay.workers _ = .finishing [.sample] ::ₘ 0 from rfl))
  obtain ⟨s, hrun, -, -, -, hrelay⟩ := hfinish
  refine ⟨_, s, _, hrun, hrelay, List.mem_singleton_self _, fun h => ?_⟩
  obtain ⟨token, htoken, -⟩ := h.entry .again (.inl (List.mem_singleton_self _))
  exact absurd (htoken.symm.trans (Finmap.lookup_erase _ _)) (by simp)

end TinyImx.Outbox
