import TinyImx.Gateway.DeliveryTracker

/-!
# Window accounting of the delivery tracker

The counters and the windows of the recipients are tallies over the entries, in every run.
-/

namespace TinyImx.Gateway.DeliveryTracker

open AList (lookup_erase lookup_erase_ne lookup_insert lookup_insert_ne)

variable {o : Options} {s s' : State} {id id' : DeliveryIdentity} {e e' : Entry} {seq : UInt32} {u : ℕ}

/-! ## What a call does -/

def registers : Call → Reply → Option (DeliveryIdentity × UInt32)
  | .registerAttempt id seq _ _, .register status =>
    if status = .registered ∨ status = .retryRegistered then some (id, seq) else none
  | .registerReplayAttempt id _ _ _, .replay r =>
    if r.status = .registered ∨ r.status = .retryRegistered then some (id, r.deliverySeq) else none
  | .registerRetryAttempt id _ new _ _, .retry status =>
    if status = .retryRegistered then some (id, new) else none
  | _, _ => none

def confirms : Call → Reply → Option DeliveryIdentity
  | .acknowledge id _, .ack status => if status = .confirmed then some id else none
  | _, _ => none

/-- The changes calls make, with the attempt that is registered and the identity that is confirmed. -/
inductive Change (o : Options) (s : State) :
    Option (DeliveryIdentity × UInt32) → Option DeliveryIdentity → State → Prop
  | same : Change o s none none s
  | enroll (id : DeliveryIdentity) (seq : UInt32) (wireBytes : ℕ) (now : ℤ) : seq ≠ 0 →
      s.entries.lookup id = none → s.mismatch id = false → s.waitingEntries < o.maxWaitingEntries →
      (s.window id.recipientUserId).entries < o.maxWaitingPerRecipient →
      s.byteRoomLocked o id.recipientUserId wireBytes = true →
      Change o s (some (id, seq)) none (s.enroll id seq wireBytes now)
  | reuse (id : DeliveryIdentity) (e : Entry) (extra : ℕ) (now : ℤ) : s.entries.lookup id = some e →
      e.confirmed = false → s.byteRoomLocked o id.recipientUserId extra = true →
      Change o s (some (id, e.currentDeliverySeq)) none (s.extend id e extra now)
  | attempt (id : DeliveryIdentity) (e : Entry) (seq : UInt32) (extra : ℕ) (now : ℤ) : seq ≠ 0 →
      s.entries.lookup id = some e → e.confirmed = false → seq ∉ e.attemptSeqs →
      e.attemptSeqs.card < o.maxAttemptSequences →
      s.byteRoomLocked o id.recipientUserId extra = true →
      Change o s (some (id, seq)) none
        { s.extend id (e.attempt seq) extra now with attemptSequences := s.attemptSequences + 1 }
  | retry (id : DeliveryIdentity) (e : Entry) (seq : UInt32) (now : ℤ) : seq ≠ 0 →
      s.entries.lookup id = some e → e.confirmed = false → seq ∉ e.attemptSeqs →
      e.attemptSeqs.card < o.maxAttemptSequences →
      Change o s (some (id, seq)) none
        { s with
          entries := s.entries.insert id { e.attempt seq with lastAttemptAt := now }
          attemptSequences := s.attemptSequences + 1 }
  | confirm (id : DeliveryIdentity) (e : Entry) : s.entries.lookup id = some e → e.confirmed = false →
      Change o s none (some id) ((s.confirm id e).trimConfirmedLocked o)

theorem registerAttemptLocked_change (o : Options) (s : State) (id : DeliveryIdentity) {seq : UInt32}
    (hseq : seq ≠ 0) (wireBytes : ℕ) (now : ℤ) :
    Change o s
      (if (s.registerAttemptLocked o id seq wireBytes now).1 = .registered ∨
          (s.registerAttemptLocked o id seq wireBytes now).1 = .retryRegistered
        then some (id, seq) else none)
      none (s.registerAttemptLocked o id seq wireBytes now).2 := by
  unfold State.registerAttemptLocked
  split
  · next hnone =>
    split
    · exact .same
    · next hmatch =>
      split
      · exact .same
      · next hroom =>
        simp only [not_or, not_le, Bool.not_eq_false] at hroom
        exact .enroll id seq wireBytes now hseq hnone (by simpa using hmatch) hroom.1 hroom.2.1 hroom.2.2
  · next e he =>
    split
    · exact .same
    · next hwaiting =>
      split
      · exact .same
      · next hnew =>
        dsimp only
        split
        · exact .same
        · next hroom =>
          simp only [not_or, not_le, Bool.not_eq_false] at hroom
          exact .attempt id e seq _ now hseq he (by simpa using hwaiting) hnew hroom.1 hroom.2

theorem replayFresh_change (o : Options) (s : State) (id : DeliveryIdentity) {seq : UInt32}
    (hseq : seq ≠ 0) (wireBytes : ℕ) (now : ℤ) :
    Change o s
      (if (s.replayFresh o id seq wireBytes now).1.status = .registered ∨
          (s.replayFresh o id seq wireBytes now).1.status = .retryRegistered
        then some (id, (s.replayFresh o id seq wireBytes now).1.deliverySeq) else none)
      none (s.replayFresh o id seq wireBytes now).2 := by
  have h := registerAttemptLocked_change o s id hseq wireBytes now
  unfold State.replayFresh
  simp_all

theorem call_change (o : Options) (s : State) (c : Call) :
    Change o s (registers c (s.call o c).1) (confirms c (s.call o c).1) (s.call o c).2 := by
  cases c with
  | registerAttempt id seq wireBytes now =>
    simp only [State.call, registers, confirms, State.registerAttempt]
    split
    · exact .same
    · next hok =>
      simp only [not_or] at hok
      exact registerAttemptLocked_change o s id hok.2 wireBytes now
  | registerReplayAttempt id seq wireBytes now =>
    simp only [State.call, registers, confirms, State.registerReplayAttempt]
    split
    · exact .same
    · next hok =>
      simp only [not_or] at hok
      split
      · exact replayFresh_change o s id hok.2 wireBytes now
      · next e he =>
        split
        · exact replayFresh_change o s id hok.2 wireBytes now
        · next hwaiting =>
          split
          · exact .same
          · split
            · split
              · next hroom => exact .reuse id e _ now he (by simpa using hwaiting) hroom
              · exact .same
            · exact replayFresh_change o s id hok.2 wireBytes now
  | registerRetryAttempt id expected new maxAttempts now =>
    simp only [State.call, registers, confirms, State.registerRetryAttempt]
    split
    · exact .same
    · next hok =>
      simp only [not_or] at hok
      split
      · split <;> exact .same
      · next e he =>
        split
        · exact .same
        · next hwaiting =>
          split
          · exact .same
          · split
            · exact .same
            · next hlimit =>
              split
              · exact .same
              · next hnew =>
                simp only [not_or, not_le] at hlimit
                exact .retry id e new now hok.2.2.1 he (by simpa using hwaiting) hnew hlimit.2
  | acknowledge id seq =>
    simp only [State.call, registers, confirms, State.acknowledge]
    split
    · exact .same
    · split
      · split <;> exact .same
      · next e he =>
        split
        · exact .same
        · split
          · exact .same
          · next hwaiting => exact .confirm id e he (by simpa using hwaiting)

/-! ## Tallies over the entries -/

def Entry.waits (e : Entry) : ℕ := if e.confirmed then 0 else 1

def Entry.waitingBytes (e : Entry) : ℕ := if e.confirmed then 0 else e.wireBytes

def ofRecipient (u : ℕ) (w : Entry → ℕ) (id : DeliveryIdentity) (e : Entry) : ℕ :=
  if id.recipientUserId = u then w e else 0

def State.total (s : State) (w : Entry → ℕ) : ℕ := Kv.tally (fun _ e => w e) s.entries

def State.totalOf (s : State) (u : ℕ) (w : Entry → ℕ) : ℕ := Kv.tally (ofRecipient u w) s.entries

def State.weight (s : State) (id : DeliveryIdentity) (w : Entry → ℕ) : ℕ :=
  (s.entries.lookup id).elim 0 w

theorem total_put (w : Entry → ℕ) (h : s'.entries = s.entries.insert id e') :
    s'.total w + s.weight id w = s.total w + w e' := by
  unfold State.total
  rw [h]
  exact Kv.tally_insert (fun _ e => w e) s.entries id e'

theorem totalOf_put_self (w : Entry → ℕ) (h : s'.entries = s.entries.insert id e') :
    s'.totalOf id.recipientUserId w + s.weight id w = s.totalOf id.recipientUserId w + w e' := by
  have hins := Kv.tally_insert (ofRecipient id.recipientUserId w) s.entries id e'
  unfold State.totalOf
  rw [h]
  have hold : Kv.weightAt (ofRecipient id.recipientUserId w) s.entries id = s.weight id w := by
    unfold Kv.weightAt State.weight ofRecipient
    simp only [if_pos]
  have hnew : ofRecipient id.recipientUserId w id e' = w e' := if_pos rfl
  rwa [hold, hnew] at hins

theorem totalOf_put_ne (w : Entry → ℕ) (h : s'.entries = s.entries.insert id e')
    (hu : u ≠ id.recipientUserId) : s'.totalOf u w = s.totalOf u w := by
  unfold State.totalOf
  rw [h]
  have hput : s.entries.insert id e' = Kv.step s.entries (.put id e') := rfl
  rw [hput]
  exact Kv.tally_step_of_zero (ofRecipient u w) fun v => if_neg (Ne.symm hu)

theorem weight_le_totalOf (s : State) (id : DeliveryIdentity) (w : Entry → ℕ) :
    s.weight id w ≤ s.totalOf id.recipientUserId w := by
  have hle := Kv.weightAt_le_tally (ofRecipient id.recipientUserId w) s.entries id
  have hold : Kv.weightAt (ofRecipient id.recipientUserId w) s.entries id = s.weight id w := by
    unfold Kv.weightAt State.weight ofRecipient
    simp only [if_pos]
  rwa [hold] at hle

theorem totalOf_bytes_zero (h : s.totalOf u Entry.waits = 0) : s.totalOf u Entry.waitingBytes = 0 := by
  by_contra hne
  obtain ⟨id, e, he, hw⟩ := (Kv.tally_pos_iff _).1 (Nat.pos_of_ne_zero hne)
  have hpos : 0 < s.totalOf u Entry.waits := by
    refine (Kv.tally_pos_iff _).2 ⟨id, e, he, ?_⟩
    unfold ofRecipient Entry.waitingBytes at hw
    unfold ofRecipient Entry.waits
    simp_all
  omega

structure Exact (s : State) : Prop where
  entries : s.waitingEntries = s.total Entry.waits
  bytes : s.waitingBytes = s.total Entry.waitingBytes
  sequences : s.attemptSequences = s.total (·.attemptSeqs.card)
  windows : ∀ u, s.waitingByRecipient.lookup u =
    if s.totalOf u Entry.waits = 0 then none
    else some ⟨s.totalOf u Entry.waits, s.totalOf u Entry.waitingBytes⟩

theorem Exact.window (h : Exact s) (u : ℕ) :
    s.window u = ⟨s.totalOf u Entry.waits, s.totalOf u Entry.waitingBytes⟩ := by
  unfold State.window
  rw [h.windows u]
  split
  · next hzero =>
    rw [hzero, totalOf_bytes_zero hzero]
    rfl
  · rfl

/-- One entry changes, and the counters and the window of its recipient by the difference. -/
theorem Exact.put (h : Exact s) (id : DeliveryIdentity) (e' : Entry)
    (he : s'.entries = s.entries.insert id e')
    (hentries : s'.waitingEntries = s.waitingEntries - s.weight id Entry.waits + e'.waits)
    (hbytes : s'.waitingBytes = s.waitingBytes - s.weight id Entry.waitingBytes + e'.waitingBytes)
    (hsequences : s'.attemptSequences =
      s.attemptSequences - s.weight id (·.attemptSeqs.card) + e'.attemptSeqs.card)
    (hother : ∀ u, u ≠ id.recipientUserId →
      s'.waitingByRecipient.lookup u = s.waitingByRecipient.lookup u)
    (hself : s'.waitingByRecipient.lookup id.recipientUserId =
      if (s.window id.recipientUserId).entries - s.weight id Entry.waits + e'.waits = 0 then none
      else some ⟨(s.window id.recipientUserId).entries - s.weight id Entry.waits + e'.waits,
        (s.window id.recipientUserId).bytes - s.weight id Entry.waitingBytes + e'.waitingBytes⟩) :
    Exact s' where
  entries := by
    have := total_put Entry.waits he
    have := h.entries
    omega
  bytes := by
    have := total_put Entry.waitingBytes he
    have := h.bytes
    omega
  sequences := by
    have := total_put (·.attemptSeqs.card) he
    have := h.sequences
    omega
  windows u := by
    by_cases hu : u = id.recipientUserId
    · subst hu
      rw [hself, h.window]
      have hw := totalOf_put_self Entry.waits he
      have hb := totalOf_put_self Entry.waitingBytes he
      have hn : (s.totalOf id.recipientUserId Entry.waits : ℤ) - s.weight id Entry.waits + e'.waits =
          s'.totalOf id.recipientUserId Entry.waits := by omega
      have hm : (s.totalOf id.recipientUserId Entry.waitingBytes : ℤ) -
          s.weight id Entry.waitingBytes + e'.waitingBytes =
          s'.totalOf id.recipientUserId Entry.waitingBytes := by omega
      rw [hn, hm]
      simp only [Nat.cast_eq_zero]
    · rw [hother u hu, h.windows u, totalOf_put_ne _ he hu, totalOf_put_ne _ he hu]

theorem weight_of_none (h : s.entries.lookup id = none) (w : Entry → ℕ) : s.weight id w = 0 := by
  simp [State.weight, h]

theorem weight_of_some (h : s.entries.lookup id = some e) (w : Entry → ℕ) : s.weight id w = w e := by
  simp [State.weight, h]

theorem Exact.enroll (h : Exact s) (hnone : s.entries.lookup id = none) (seq : UInt32) (wireBytes : ℕ)
    (now : ℤ) : Exact (s.enroll id seq wireBytes now) := by
  refine h.put id ⟨seq, 1, false, {seq}, wireBytes, now⟩ rfl ?_ ?_ ?_ ?_ ?_
  · simp [weight_of_none hnone, State.enroll, Entry.waits]
  · simp [weight_of_none hnone, State.enroll, Entry.waitingBytes]
  · simp [weight_of_none hnone, State.enroll]
  · intro u hu
    exact lookup_insert_ne hu
  · rw [weight_of_none hnone, weight_of_none hnone]
    have hne : (s.window id.recipientUserId).entries + 1 ≠ 0 := by
      rw [h.window]
      dsimp only
      omega
    simp [State.enroll, Entry.waits, Entry.waitingBytes, hne]

theorem Exact.window_pos (h : Exact s) (he : s.entries.lookup id = some e) (hw : e.confirmed = false) :
    0 < (s.window id.recipientUserId).entries := by
  have hle := weight_le_totalOf s id Entry.waits
  rw [weight_of_some he] at hle
  have hone : e.waits = 1 := by simp [Entry.waits, hw]
  rw [h.window]
  dsimp only
  omega

theorem Exact.extend (h : Exact s) (e' : Entry) (he : s.entries.lookup id = some e)
    (hw : e.confirmed = false) (hw' : e'.confirmed = false) (hbytes : e'.wireBytes = e.wireBytes) (extra n : ℕ) (now : ℤ)
    (hcard : e'.attemptSeqs.card = e.attemptSeqs.card + n) :
    Exact { s.extend id e' extra now with attemptSequences := s.attemptSequences + n } := by
  have hpos := h.window_pos he hw
  refine h.put id { e' with wireBytes := e'.wireBytes + extra, lastAttemptAt := now } rfl ?_ ?_ ?_ ?_ ?_
  · simp [weight_of_some he, State.extend, Entry.waits, hw, hw']
  · simp only [weight_of_some he, State.extend, Entry.waitingBytes, hw, hw', hbytes]
    grind
  · simp only [weight_of_some he, hcard]
    push_cast
    omega
  · intro u hu
    exact lookup_insert_ne hu
  · simp only [weight_of_some he, State.extend, lookup_insert, Entry.waits, Entry.waitingBytes,
      hw, hw', hbytes]
    grind

theorem Exact.retry (h : Exact s) (he : s.entries.lookup id = some e) (hw : e.confirmed = false)
    (hw' : e'.confirmed = false) (hbytes : e'.wireBytes = e.wireBytes)
    (hcard : e'.attemptSeqs.card = e.attemptSeqs.card + 1) :
    Exact { s with
      entries := s.entries.insert id e'
      attemptSequences := s.attemptSequences + 1 } := by
  have hpos := h.window_pos he hw
  have hwin := h.windows id.recipientUserId
  rw [if_neg (by rw [h.window] at hpos; dsimp only at hpos; omega)] at hwin
  refine h.put id e' rfl ?_ ?_ ?_ (fun _ _ => rfl) ?_
  · simp [weight_of_some he, Entry.waits, hw, hw']
  · simp [weight_of_some he, Entry.waitingBytes, hw, hw', hbytes]
  · rw [weight_of_some he, hcard]
    push_cast
    omega
  · have hwaits : e'.waits = e.waits := by simp [Entry.waits, hw, hw']
    have hwaiting : e'.waitingBytes = e.waitingBytes := by simp [Entry.waitingBytes, hw, hw', hbytes]
    rw [weight_of_some he, weight_of_some he, hwaits, hwaiting, sub_add_cancel, sub_add_cancel,
      if_neg hpos.ne', hwin, h.window]

theorem Exact.confirm (h : Exact s) (he : s.entries.lookup id = some e) (hw : e.confirmed = false) :
    Exact (s.confirm id e) := by
  have hone : e.waits = 1 := by simp [Entry.waits, hw]
  have hall : e.waitingBytes = e.wireBytes := by simp [Entry.waitingBytes, hw]
  refine h.put id { e with confirmed := true, wireBytes := 0 } rfl ?_ ?_ ?_ ?_ ?_
  · rw [weight_of_some he, hone]
    simp [State.confirm, Entry.waits]
  · rw [weight_of_some he, hall]
    simp [State.confirm, Entry.waitingBytes]
  · rw [weight_of_some he]
    simp [State.confirm]
  · intro u hu
    unfold State.confirm
    dsimp only
    split
    · exact lookup_erase_ne hu
    · exact lookup_insert_ne hu
  · rw [weight_of_some he, weight_of_some he, hone, hall]
    unfold State.confirm
    simp only [Entry.waits, Entry.waitingBytes, if_pos, Nat.cast_zero, Nat.cast_one, add_zero]
    split
    · exact lookup_erase _ _
    · exact lookup_insert _

/-- Trimming a confirmed entry takes away its sequences only. -/
theorem Exact.forget (h : Exact s) (id : DeliveryIdentity) : Exact (s.forget id) := by
  unfold State.forget
  split
  · exact h
  · next e he =>
    split
    · next hc =>
      have hweight : ∀ w : Entry → ℕ, Kv.weightAt (fun _ e => w e) s.entries id = w e :=
        fun w => Kv.weightAt_of_lookup (fun _ e => w e) he
      have herase : ∀ w : Entry → ℕ, Kv.tally (fun _ e => w e) (s.entries.erase id) + w e = s.total w := by
        intro w
        have := Kv.tally_erase (fun _ e => w e) s.entries id
        rwa [hweight w] at this
      have heraseOf : ∀ (u : ℕ) (w : Entry → ℕ), w e = 0 →
          Kv.tally (ofRecipient u w) (s.entries.erase id) = s.totalOf u w := by
        intro u w hzero
        have := Kv.tally_erase (ofRecipient u w) s.entries id
        rwa [Kv.weightAt_of_lookup _ he, ofRecipient, hzero, ite_self, Nat.add_zero] at this
      have hwaits : e.waits = 0 := by simp [Entry.waits, hc]
      have hbytes : e.waitingBytes = 0 := by simp [Entry.waitingBytes, hc]
      exact {
        entries := by
          have := herase Entry.waits
          rw [hwaits, Nat.add_zero] at this
          rw [State.total, this]
          exact h.entries
        bytes := by
          have := herase Entry.waitingBytes
          rw [hbytes, Nat.add_zero] at this
          rw [State.total, this]
          exact h.bytes
        sequences := by
          have := herase (·.attemptSeqs.card)
          have := h.sequences
          rw [State.total]
          dsimp only
          omega
        windows := by
          intro u
          rw [State.totalOf, State.totalOf, heraseOf u _ hwaits, heraseOf u _ hbytes]
          exact h.windows u }
    · exact h

theorem Exact.congr (h : Exact s) (hentries : s'.entries = s.entries)
    (hwindows : s'.waitingByRecipient = s.waitingByRecipient)
    (hcounters : s'.waitingEntries = s.waitingEntries ∧ s'.waitingBytes = s.waitingBytes ∧
      s'.attemptSequences = s.attemptSequences) : Exact s' where
  entries := by
    rw [hcounters.1, State.total, hentries]
    exact h.entries
  bytes := by
    rw [hcounters.2.1, State.total, hentries]
    exact h.bytes
  sequences := by
    rw [hcounters.2.2, State.total, hentries]
    exact h.sequences
  windows u := by
    rw [State.totalOf, State.totalOf, hentries, hwindows]
    exact h.windows u

theorem Exact.trimLoop (o : Options) (order : List DeliveryIdentity) (h : Exact s) :
    Exact (s.trimLoop o order) := by
  induction order generalizing s with
  | nil => exact h.congr rfl rfl ⟨rfl, rfl, rfl⟩
  | cons id order ih =>
    unfold State.trimLoop
    split
    · exact ih (h.forget id)
    · exact h.congr rfl rfl ⟨rfl, rfl, rfl⟩

theorem attempt_card (hseq : seq ∉ e.attemptSeqs) :
    (e.attempt seq).attemptSeqs.card = e.attemptSeqs.card + 1 :=
  Finset.card_insert_of_notMem hseq

theorem Exact.change {r : Option (DeliveryIdentity × UInt32)} {k : Option DeliveryIdentity}
    (h : Exact s) (hc : Change o s r k s') : Exact s' := by
  cases hc with
  | same => exact h
  | enroll id seq wireBytes now _ hnone => exact h.enroll hnone seq wireBytes now
  | reuse id e extra now he hw =>
    have := h.extend e he hw hw rfl extra 0 now rfl
    rwa [Nat.cast_zero, add_zero] at this
  | attempt id e seq extra now _ he hw hnew =>
    exact h.extend (e.attempt seq) he hw hw rfl extra 1 now (attempt_card hnew)
  | retry id e seq now _ he hw hnew => exact h.retry he hw hw rfl (attempt_card hnew)
  | confirm id e he hw => exact (h.confirm he hw).trimLoop o _

/-! ## Entries, orders and limits -/

/-- An entry counts its sequences, within the limit, and its current one is among them. -/
structure Entry.Fine (o : Options) (e : Entry) : Prop where
  count : e.attemptCount.toNat = e.attemptSeqs.card
  nonzero : 0 ∉ e.attemptSeqs
  limit : e.attemptSeqs.card ≤ o.maxAttemptSequences
  current : e.currentDeliverySeq ∈ e.attemptSeqs

theorem card_lt_of_zero_notMem {seqs : Finset UInt32} (h : 0 ∉ seqs) : seqs.card < 2 ^ 32 := by
  have hsub : seqs.image UInt32.toNat ⊆ (Finset.range (2 ^ 32)).erase 0 := by
    intro n hn
    obtain ⟨seq, hseq, rfl⟩ := Finset.mem_image.1 hn
    refine Finset.mem_erase.2 ⟨?_, Finset.mem_range.2 seq.toNat_lt⟩
    intro hzero
    exact h ((UInt32.toNat_inj.1 (hzero.trans UInt32.toNat_zero.symm)) ▸ hseq)
  have hcard := Finset.card_le_card hsub
  rw [Finset.card_image_of_injective _ fun _ _ => UInt32.toNat_inj.1,
    Finset.card_erase_of_mem (Finset.mem_range.2 (by omega)), Finset.card_range] at hcard
  omega

theorem Entry.Fine.attempt (h : e.Fine o) (hseq : seq ≠ 0) (hnew : seq ∉ e.attemptSeqs)
    (hroom : e.attemptSeqs.card < o.maxAttemptSequences) : (e.attempt seq).Fine o where
  count := by
    have hnonzero : 0 ∉ (e.attempt seq).attemptSeqs := by
      intro hmem
      rcases Finset.mem_insert.1 hmem with heq | hmem
      · exact hseq heq.symm
      · exact h.nonzero hmem
    have hlt := card_lt_of_zero_notMem hnonzero
    rw [attempt_card hnew] at hlt ⊢
    show (e.attemptCount + 1).toNat = _
    rw [UInt32.toNat_add, h.count, UInt32.toNat_one, Nat.mod_eq_of_lt hlt]
  nonzero hmem := by
    rcases Finset.mem_insert.1 hmem with heq | hmem
    · exact hseq heq.symm
    · exact h.nonzero hmem
  limit := by
    rw [attempt_card hnew]
    exact hroom
  current := Finset.mem_insert_self seq _

/-- The confirmed identities in order, and the receivers of private messages, are those of the
entries. -/
structure Listed (order : List DeliveryIdentity) (s : State) : Prop where
  nodup : order.Nodup
  order : ∀ id, id ∈ order ↔ ∃ e, s.entries.lookup id = some e ∧ e.confirmed = true
  receivers : ∀ m r, s.privateReceivers.lookup m = some r ↔
    ∃ e, s.entries.lookup ⟨.privateMessage, m, r⟩ = some e

theorem lookup_insert_cases {m : AList fun _ : DeliveryIdentity => Entry}
    (h : (m.insert id e').lookup id' = some e) : (id' = id ∧ e = e') ∨ (id' ≠ id ∧ m.lookup id' = some e) := by
  by_cases hid : id' = id
  · subst hid
    rw [lookup_insert] at h
    exact .inl ⟨rfl, (Option.some.inj h).symm⟩
  · simp_all

variable {order : List DeliveryIdentity}

theorem Listed.update (h : Listed order s)
    (he : s.entries.lookup id = some e) (hentries : s'.entries = s.entries.insert id e')
    (hc : e'.confirmed = e.confirmed) (hreceivers : s'.privateReceivers = s.privateReceivers) : Listed order s' where
  nodup := h.nodup
  order id' := by
    rw [h.order id', hentries]
    by_cases hid : id' = id
    · subst hid
      simp_all
    · rw [lookup_insert_ne hid]
  receivers m r := by
    rw [hreceivers, h.receivers m r, hentries]
    by_cases hid : (⟨.privateMessage, m, r⟩ : DeliveryIdentity) = id
    · rw [hid, lookup_insert, he]
      simp
    · rw [lookup_insert_ne hid]

theorem Listed.enroll (h : Listed order s)
    (hnone : s.entries.lookup id = none) (hmatch : s.mismatch id = false) (seq : UInt32)
    (wireBytes : ℕ) (now : ℤ) : Listed order (s.enroll id seq wireBytes now) where
  nodup := h.nodup
  order id' := by
    rw [h.order id']
    show _ ↔ ∃ e, (s.entries.insert id ⟨seq, 1, false, {seq}, wireBytes, now⟩).lookup id' = some e ∧ _
    by_cases hid : id' = id
    · subst hid
      simp_all
    · rw [lookup_insert_ne hid]
  receivers m r := by
    show (if id.domain = .privateMessage then s.privateReceivers.insert id.messageId id.recipientUserId
      else s.privateReceivers).lookup m = some r ↔
      ∃ e, (s.entries.insert id ⟨seq, 1, false, {seq}, wireBytes, now⟩).lookup
        ⟨.privateMessage, m, r⟩ = some e
    by_cases hdomain : id.domain = .privateMessage
    · rw [if_pos hdomain]
      have hfree : s.privateReceivers.lookup id.messageId = none := by
        simpa [State.mismatch, hdomain] using hmatch
      by_cases hm : m = id.messageId
      · subst hm
        rw [lookup_insert]
        by_cases hid : (⟨.privateMessage, id.messageId, r⟩ : DeliveryIdentity) = id
        · rw [hid, lookup_insert]
          grind
        · rw [lookup_insert_ne hid, ← h.receivers, hfree]
          have hr : id.recipientUserId ≠ r := by
            rintro rfl
            refine hid ?_
            rw [← hdomain]
          simp [hr]
      · have hid : (⟨.privateMessage, m, r⟩ : DeliveryIdentity) ≠ id := by
          rintro rfl
          exact hm rfl
        rw [lookup_insert_ne hm, lookup_insert_ne hid, h.receivers]
    · have hid : (⟨.privateMessage, m, r⟩ : DeliveryIdentity) ≠ id := by
        rintro rfl
        exact hdomain rfl
      rw [if_neg hdomain, lookup_insert_ne hid, h.receivers]

theorem Listed.confirm (h : Listed s.confirmedOrder s) (he : s.entries.lookup id = some e)
    (hw : e.confirmed = false) : Listed (s.confirm id e).confirmedOrder (s.confirm id e) where
  nodup := by
    show (s.confirmedOrder ++ [id]).Nodup
    refine List.nodup_append.2 ⟨h.nodup, List.nodup_singleton id, ?_⟩
    rintro id' hid' _ hmem rfl
    rw [List.mem_singleton] at hmem
    subst hmem
    obtain ⟨e₁, he₁, hc⟩ := (h.order id').1 hid'
    simp_all
  order id' := by
    show id' ∈ s.confirmedOrder ++ [id] ↔
      ∃ e₁, (s.entries.insert id { e with confirmed := true, wireBytes := 0 }).lookup id' = some e₁ ∧ _
    rw [List.mem_append, List.mem_singleton, h.order id']
    by_cases hid : id' = id
    · subst hid
      rw [lookup_insert]
      simp
    · simp_all
  receivers m r := by
    show s.privateReceivers.lookup m = some r ↔
      ∃ e₁, (s.entries.insert id { e with confirmed := true, wireBytes := 0 }).lookup
        ⟨.privateMessage, m, r⟩ = some e₁
    rw [h.receivers]
    by_cases hid : (⟨.privateMessage, m, r⟩ : DeliveryIdentity) = id
    · rw [hid, lookup_insert, he]
      simp
    · rw [lookup_insert_ne hid]

/-- The oldest confirmed identity is forgotten with its entry. -/
theorem Listed.forget (h : Listed (id :: order) s) :
    Listed order (s.forget id) ∧ (s.forget id).entries = s.entries.erase id := by
  obtain ⟨e, he, hc⟩ := (h.order id).1 List.mem_cons_self
  have hnot : id ∉ order := (List.nodup_cons.1 h.nodup).1
  unfold State.forget
  rw [he]
  dsimp only
  rw [if_pos hc]
  refine ⟨⟨(List.nodup_cons.1 h.nodup).2, fun id' => ?_, fun m r => ?_⟩, rfl⟩
  · by_cases hid : id' = id
    · subst hid
      simp_all
    · rw [lookup_erase_ne hid, ← h.order id', List.mem_cons]
      simp [hid]
  · by_cases hdomain : id.domain = .privateMessage
    · rw [if_pos hdomain]
      by_cases hm : m = id.messageId
      · subst hm
        rw [lookup_erase]
        by_cases hid : (⟨.privateMessage, id.messageId, r⟩ : DeliveryIdentity) = id
        · rw [hid, lookup_erase]
          simp
        · rw [lookup_erase_ne hid, ← h.receivers]
          have hself : s.privateReceivers.lookup id.messageId = some id.recipientUserId := by
            rw [h.receivers]
            refine ⟨e, ?_⟩
            rw [← he, ← hdomain]
          have hr : id.recipientUserId ≠ r := by
            rintro rfl
            refine hid ?_
            rw [← hdomain]
          rw [hself]
          simp [hr]
      · have hid : (⟨.privateMessage, m, r⟩ : DeliveryIdentity) ≠ id := by
          rintro rfl
          exact hm rfl
        rw [lookup_erase_ne hm, lookup_erase_ne hid, h.receivers]
    · have hid : (⟨.privateMessage, m, r⟩ : DeliveryIdentity) ≠ id := by
        rintro rfl
        exact hdomain rfl
      rw [if_neg hdomain, lookup_erase_ne hid, h.receivers]

/-- What trimming leaves of `order`: the newest `maxRecentConfirmed` identities; the entries of the
others are gone. -/
structure Trimmed (o : Options) (order : List DeliveryIdentity) (s s' : State) : Prop where
  kept : s'.confirmedOrder = order.drop (order.length - o.maxRecentConfirmed)
  gone : ∀ id ∈ order.take (order.length - o.maxRecentConfirmed), s'.entries.lookup id = none
  other : ∀ id ∉ order.take (order.length - o.maxRecentConfirmed),
    s'.entries.lookup id = s.entries.lookup id
  listed : Listed s'.confirmedOrder s'
  windows : s'.waitingByRecipient = s.waitingByRecipient
  counters : s'.waitingEntries = s.waitingEntries ∧ s'.waitingBytes = s.waitingBytes

theorem forget_windows (s : State) (id : DeliveryIdentity) :
    (s.forget id).waitingByRecipient = s.waitingByRecipient ∧
      (s.forget id).waitingEntries = s.waitingEntries ∧ (s.forget id).waitingBytes = s.waitingBytes := by
  unfold State.forget
  grind

theorem Listed.trimLoop (o : Options) (h : Listed order s) :
    Trimmed o order s (s.trimLoop o order) := by
  induction order generalizing s with
  | nil =>
    exact {
      kept := by simp [State.trimLoop]
      gone := by simp
      other := fun _ _ => rfl
      listed := ⟨h.nodup, h.order, h.receivers⟩
      windows := rfl
      counters := ⟨rfl, rfl⟩ }
  | cons id order ih =>
    unfold State.trimLoop
    split
    · next hlong =>
      obtain ⟨hlisted, herase⟩ := h.forget
      have ht := ih hlisted
      have hwin := forget_windows s id
      rw [List.length_cons] at hlong
      have hlen : (id :: order).length - o.maxRecentConfirmed =
          (order.length - o.maxRecentConfirmed) + 1 := by
        rw [List.length_cons]
        omega
      have hnot : id ∉ order := (List.nodup_cons.1 h.nodup).1
      exact {
        kept := by rw [ht.kept, hlen, List.drop_succ_cons]
        gone := by
          intro id' hid'
          rw [hlen, List.take_succ_cons, List.mem_cons] at hid'
          rcases hid' with rfl | hid'
          · rw [ht.other id' fun hmem => hnot (List.mem_of_mem_take hmem), herase, lookup_erase]
          · exact ht.gone id' hid'
        other := by
          intro id' hid'
          rw [hlen, List.take_succ_cons, List.mem_cons, not_or] at hid'
          rw [ht.other id' hid'.2, herase, lookup_erase_ne hid'.1]
        listed := ht.listed
        windows := ht.windows.trans hwin.1
        counters := ⟨ht.counters.1.trans hwin.2.1, ht.counters.2.trans hwin.2.2⟩ }
    · next hshort =>
      have hzero : (id :: order).length - o.maxRecentConfirmed = 0 := by omega
      exact {
        kept := by rw [hzero, List.drop_zero]
        gone := by
          grind
        other := fun _ _ => rfl
        listed := ⟨h.nodup, h.order, h.receivers⟩
        windows := rfl
        counters := ⟨rfl, rfl⟩ }

structure Limits (o : Options) (s : State) : Prop where
  entries : s.waitingEntries ≤ o.maxWaitingEntries
  perRecipient : ∀ u, (s.window u).entries ≤ o.maxWaitingPerRecipient
  bytes : s.waitingBytes ≤ o.maxWaitingBytes
  bytesPerRecipient : ∀ u, (s.window u).bytes ≤ o.maxBytesPerRecipient
  recentConfirmed : s.confirmedOrder.length ≤ o.maxRecentConfirmed

theorem byteRoom_iff {extra : ℕ} (h : s.byteRoomLocked o u extra = true) :
    s.waitingBytes + extra ≤ o.maxWaitingBytes ∧ (s.window u).bytes + extra ≤ o.maxBytesPerRecipient := by
  simp only [State.byteRoomLocked, Bool.and_eq_true, decide_eq_true_eq] at h
  omega

theorem window_insert_self (s : State) (u : ℕ) (w : RecipientWindow)
    (h : s'.waitingByRecipient = s.waitingByRecipient.insert u w) : s'.window u = w := by
  unfold State.window
  rw [h, lookup_insert, Option.getD_some]

theorem window_insert_ne {v : ℕ} {w : RecipientWindow}
    (h : s'.waitingByRecipient = s.waitingByRecipient.insert u w) (hv : v ≠ u) :
    s'.window v = s.window v := by
  unfold State.window
  rw [h, lookup_insert_ne hv]

theorem Limits.insert (h : Limits o s) (u : ℕ) (w : RecipientWindow)
    (hwin : s'.waitingByRecipient = s.waitingByRecipient.insert u w)
    (hw : w.entries ≤ o.maxWaitingPerRecipient ∧ w.bytes ≤ o.maxBytesPerRecipient)
    (hentries : s'.waitingEntries ≤ o.maxWaitingEntries) (hbytes : s'.waitingBytes ≤ o.maxWaitingBytes)
    (horder : s'.confirmedOrder = s.confirmedOrder) : Limits o s' where
  entries := hentries
  perRecipient v := by
    by_cases hv : v = u
    · rw [hv, window_insert_self s u w hwin]
      exact hw.1
    · rw [window_insert_ne hwin hv]
      exact h.perRecipient v
  bytes := hbytes
  bytesPerRecipient v := by
    by_cases hv : v = u
    · rw [hv, window_insert_self s u w hwin]
      exact hw.2
    · rw [window_insert_ne hwin hv]
      exact h.bytesPerRecipient v
  recentConfirmed := by
    rw [horder]
    exact h.recentConfirmed

theorem Limits.confirm (h : Limits o s) (id : DeliveryIdentity) (e : Entry) :
    (s.confirm id e).waitingEntries ≤ o.maxWaitingEntries ∧
      (s.confirm id e).waitingBytes ≤ o.maxWaitingBytes ∧
      ∀ u, ((s.confirm id e).window u).entries ≤ o.maxWaitingPerRecipient ∧
        ((s.confirm id e).window u).bytes ≤ o.maxBytesPerRecipient := by
  have hentries := h.entries
  have hbytes := h.bytes
  refine ⟨?_, ?_, fun u => ?_⟩
  · show s.waitingEntries - 1 ≤ _
    omega
  · show s.waitingBytes - e.wireBytes ≤ _
    omega
  · have hu := h.perRecipient u
    have hb := h.bytesPerRecipient u
    by_cases hid : u = id.recipientUserId
    · subst hid
      unfold State.confirm State.window at *
      dsimp only
      split
      · rw [lookup_erase]
        simp
      · rw [lookup_insert]
        grind
    · have hsame : (s.confirm id e).window u = s.window u := by
        unfold State.confirm State.window
        dsimp only
        split
        · rw [lookup_erase_ne hid]
        · rw [lookup_insert_ne hid]
      rw [hsame]
      exact ⟨hu, hb⟩

structure Sound (o : Options) (s : State) : Prop where
  exact : Exact s
  fine : ∀ id e, s.entries.lookup id = some e → e.Fine o
  listed : Listed s.confirmedOrder s
  limits : Limits o s

theorem Sound.start (o : Options) : Sound o start where
  exact := ⟨rfl, rfl, rfl, fun _ => rfl⟩
  fine id e he := by cases he
  listed := ⟨List.nodup_nil, by simp [DeliveryTracker.start], by simp [DeliveryTracker.start]⟩
  limits := by
    constructor <;> simp [DeliveryTracker.start, State.window]

theorem fine_insert (h : ∀ id e, s.entries.lookup id = some e → e.Fine o)
    (hentries : s'.entries = s.entries.insert id e') (hfine : e'.Fine o) :
    ∀ id e, s'.entries.lookup id = some e → e.Fine o := by
  intro id₁ e₁ he₁
  rw [hentries] at he₁
  rcases lookup_insert_cases he₁ with ⟨-, rfl⟩ | ⟨-, he₁⟩
  · exact hfine
  · exact h id₁ e₁ he₁

theorem Entry.Fine.congr (h : e.Fine o) (hcount : e'.attemptCount = e.attemptCount)
    (hseqs : e'.attemptSeqs = e.attemptSeqs) (hcurrent : e'.currentDeliverySeq = e.currentDeliverySeq) :
    e'.Fine o := by
  constructor
  · rw [hcount, hseqs]
    exact h.count
  · rw [hseqs]
    exact h.nonzero
  · rw [hseqs]
    exact h.limit
  · rw [hseqs, hcurrent]
    exact h.current

theorem Sound.change (hmax : 1 ≤ o.maxAttemptSequences) {r : Option (DeliveryIdentity × UInt32)}
    {k : Option DeliveryIdentity} (h : Sound o s) (hc : Change o s r k s') : Sound o s' where
  exact := h.exact.change hc
  fine := by
    cases hc with
    | same => exact h.fine
    | enroll id seq wireBytes now hseq =>
      refine fine_insert h.fine rfl ?_
      exact ⟨by simp, by simpa using Ne.symm hseq, by simpa using hmax, by simp⟩
    | reuse id e extra now he =>
      exact fine_insert h.fine rfl ((h.fine id e he).congr rfl rfl rfl)
    | attempt id e seq extra now hseq he hw hnew hroom =>
      exact fine_insert h.fine rfl (((h.fine id e he).attempt hseq hnew hroom).congr rfl rfl rfl)
    | retry id e seq now hseq he hw hnew hroom =>
      exact fine_insert h.fine rfl (((h.fine id e he).attempt hseq hnew hroom).congr rfl rfl rfl)
    | confirm id e he hw =>
      have ht := (h.listed.confirm he hw).trimLoop o
      have hfine : ∀ id₁ e₁, (s.confirm id e).entries.lookup id₁ = some e₁ → e₁.Fine o :=
        fine_insert h.fine rfl ((h.fine id e he).congr rfl rfl rfl)
      intro id₁ e₁ he₁
      by_cases hdrop : id₁ ∈ (s.confirm id e).confirmedOrder.take
          ((s.confirm id e).confirmedOrder.length - o.maxRecentConfirmed)
      · have hnone := ht.gone id₁ hdrop
        rw [State.trimConfirmedLocked] at he₁
        rw [hnone] at he₁
        cases he₁
      · rw [State.trimConfirmedLocked, ht.other id₁ hdrop] at he₁
        exact hfine id₁ e₁ he₁
  listed := by
    cases hc with
    | same => exact h.listed
    | enroll id seq wireBytes now _ hnone hmatch => exact h.listed.enroll hnone hmatch seq wireBytes now
    | reuse id e extra now he => exact h.listed.update he rfl rfl rfl
    | attempt id e seq extra now _ he => exact h.listed.update he rfl rfl rfl
    | retry id e seq now _ he => exact h.listed.update he rfl rfl rfl
    | confirm id e he hw => exact ((h.listed.confirm he hw).trimLoop o).listed
  limits := by
    cases hc with
    | same => exact h.limits
    | enroll id seq wireBytes now _ hnone hmatch hentries hwindow hroom =>
      have hbytes := byteRoom_iff hroom
      exact h.limits.insert id.recipientUserId _ rfl ⟨hwindow, hbytes.2⟩ hentries hbytes.1 rfl
    | reuse id e extra now he hw hroom =>
      have hbytes := byteRoom_iff hroom
      exact h.limits.insert id.recipientUserId _ rfl ⟨h.limits.perRecipient _, hbytes.2⟩ h.limits.entries
        hbytes.1 rfl
    | attempt id e seq extra now _ he hw hnew hcard hroom =>
      have hbytes := byteRoom_iff hroom
      exact h.limits.insert id.recipientUserId _ rfl ⟨h.limits.perRecipient _, hbytes.2⟩ h.limits.entries
        hbytes.1 rfl
    | retry id e seq now =>
      exact ⟨h.limits.entries, h.limits.perRecipient, h.limits.bytes, h.limits.bytesPerRecipient,
        h.limits.recentConfirmed⟩
    | confirm id e he hw =>
      have ht := (h.listed.confirm he hw).trimLoop o
      obtain ⟨hentries, hbytes, hwindow⟩ := h.limits.confirm id e
      have hsame : ∀ u, ((s.confirm id e).trimConfirmedLocked o).window u = (s.confirm id e).window u := by
        intro u
        unfold State.window
        rw [State.trimConfirmedLocked, ht.windows]
      exact {
        entries := by
          rw [State.trimConfirmedLocked, ht.counters.1]
          exact hentries
        perRecipient := fun u => by
          simp_all
        bytes := by
          rw [State.trimConfirmedLocked, ht.counters.2]
          exact hbytes
        bytesPerRecipient := fun u => by
          rw [hsame]
          exact (hwindow u).2
        recentConfirmed := by
          rw [State.trimConfirmedLocked, ht.kept, List.length_drop]
          omega }

/-! ## Runs -/

theorem run_append_singleton (o : Options) (calls : List Call) (c : Call) :
    run o (calls ++ [c]) = ((run o calls).call o c).2 := by
  simp [run]

theorem one_le_maxAttemptSequences (o : Options) : 1 ≤ o.clamp.maxAttemptSequences :=
  le_max_left 1 o.maxAttemptSequences

theorem run_sound (o : Options) (calls : List Call) : Sound o.clamp (run o.clamp calls) := by
  induction calls using List.reverseRecOn with
  | nil => exact .start o.clamp
  | append_singleton calls c ih =>
    rw [run_append_singleton]
    exact ih.change (one_le_maxAttemptSequences o) (call_change o.clamp (run o.clamp calls) c)

/-- After any calls, the counters are the tallies over the entries, the windows are those of the
recipients with a waiting entry, each entry counts its sequences, the order lists each confirmed entry
once, the receivers are those of the private messages, and every limit holds. -/
theorem window_accounting (o : Options) (calls : List Call) :
    ((run o.clamp calls).waitingEntries = (run o.clamp calls).total Entry.waits ∧
      (run o.clamp calls).waitingBytes = (run o.clamp calls).total Entry.waitingBytes ∧
      (run o.clamp calls).attemptSequences = (run o.clamp calls).total (·.attemptSeqs.card)) ∧
    (∀ u, (run o.clamp calls).waitingByRecipient.lookup u =
      if (run o.clamp calls).totalOf u Entry.waits = 0 then none
      else some ⟨(run o.clamp calls).totalOf u Entry.waits,
        (run o.clamp calls).totalOf u Entry.waitingBytes⟩) ∧
    (∀ id e, (run o.clamp calls).entries.lookup id = some e →
      e.attemptCount.toNat = e.attemptSeqs.card ∧
        e.attemptSeqs.card ≤ o.clamp.maxAttemptSequences) ∧
    ((run o.clamp calls).confirmedOrder.Nodup ∧
      ∀ id, id ∈ (run o.clamp calls).confirmedOrder ↔
        ∃ e, (run o.clamp calls).entries.lookup id = some e ∧ e.confirmed = true) ∧
    (∀ m r, (run o.clamp calls).privateReceivers.lookup m = some r ↔
      ∃ e, (run o.clamp calls).entries.lookup ⟨.privateMessage, m, r⟩ = some e) ∧
    Limits o.clamp (run o.clamp calls) := by
  have h := run_sound o calls
  exact ⟨⟨h.exact.entries, h.exact.bytes, h.exact.sequences⟩, h.exact.windows,
    fun id e he => ⟨(h.fine id e he).count, (h.fine id e he).limit⟩,
    ⟨h.listed.nodup, h.listed.order⟩, h.listed.receivers, h.limits⟩

end TinyImx.Gateway.DeliveryTracker
