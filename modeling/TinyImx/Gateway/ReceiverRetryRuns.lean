import TinyImx.Gateway.ReceiverRetry

/-!
# Runs of the receiver retry chain

In every interleaving: what is sent was registered, a confirmed identity is registered again only
when the tracker has forgotten it, timeouts retry each attempt at most once and stay below the
limit, and a private message that waits for its acknowledgement is being submitted, has a timer, or
lost it for a recorded reason.
-/

namespace TinyImx.Gateway

/-! ## What a change does to the current sequences -/

namespace DeliveryTracker

variable {o : Options} {s s' : State} {id : DeliveryIdentity} {e e' : Entry} {seq : UInt32}
  {r : Option (DeliveryIdentity × UInt32)} {k : Option DeliveryIdentity}

theorem Change.current_self (hc : Change o s (some (id, seq)) k s') :
    ∃ e', s'.entries.lookup id = some e' ∧ e'.currentDeliverySeq = seq := by
  cases hc with
  | enroll => exact ⟨_, AList.lookup_insert _, rfl⟩
  | reuse => exact ⟨_, AList.lookup_insert _, rfl⟩
  | attempt => exact ⟨_, AList.lookup_insert _, rfl⟩
  | retry => exact ⟨_, AList.lookup_insert _, rfl⟩

theorem Change.entry_current (hmax : 1 ≤ o.maxAttemptSequences) (h : Sound o s)
    (hc : Change o s r k s') (he' : s'.entries.lookup id = some e') :
    r = some (id, e'.currentDeliverySeq) ∨ (∀ seq, r ≠ some (id, seq)) ∧
      ∃ e, s.entries.lookup id = some e ∧ e.Next r k id e' ∧
        e.currentDeliverySeq = e'.currentDeliverySeq := by
  by_cases hr : ∃ seq, r = some (id, seq)
  · obtain ⟨seq, rfl⟩ := hr
    obtain ⟨e₁, he₁, rfl⟩ := hc.current_self
    simp_all
  · push Not at hr
    rcases hc.entry h he' with ⟨e, he, hnext⟩ | ⟨-, seq, hseq, -⟩
    · refine .inr ⟨hr, e, he, hnext, ?_⟩
      rcases hnext.current with hsame | hnew
      · exact hsame.symm
      · have hmem := ((h.change hmax hc).fine id e' he').current
        rcases hnext.seqs _ hmem with hold | hreg
        · exact absurd hold hnew
        · exact absurd hreg (hr _)
    · exact absurd hseq (hr seq)

theorem registerAttemptLocked_fresh (h : Sound o s) {wireBytes : ℕ} {now : ℤ}
    (hok : (s.registerAttemptLocked o id seq wireBytes now).1 = .registered ∨
      (s.registerAttemptLocked o id seq wireBytes now).1 = .retryRegistered)
    (he : s.entries.lookup id = some e) : e.currentDeliverySeq ≠ seq := by
  rintro rfl
  have hmem := (h.fine id e he).current
  simp only [State.registerAttemptLocked, he, if_pos hmem] at hok
  split at hok <;> simp at hok

theorem registerReplayAttempt_cases (o : Options) (s : State) (id : DeliveryIdentity) (seq : UInt32)
    (wireBytes : ℕ) (now : ℤ) :
    (∃ e s', s.entries.lookup id = some e ∧ s.registerReplayAttempt o id seq wireBytes now =
      (⟨.retryRegistered, e.currentDeliverySeq, true⟩, s')) ∨
    s.registerReplayAttempt o id seq wireBytes now = s.replayFresh o id seq wireBytes now ∨
    ∃ status, (status = .invalidArgument ∨ status = .windowFull ∨
        status = .waitingAck ∧ ∃ e, s.entries.lookup id = some e ∧ e.confirmed = false) ∧
      s.registerReplayAttempt o id seq wireBytes now = (⟨status, 0, false⟩, s) := by
  unfold State.registerReplayAttempt
  split
  · exact .inr (.inr ⟨_, .inl rfl, rfl⟩)
  · split
    · exact .inr (.inl rfl)
    · next e he =>
      split
      · exact .inr (.inl rfl)
      · next hwaiting =>
        split
        · exact .inr (.inr ⟨_, .inr (.inr ⟨rfl, e, he, by simpa using hwaiting⟩), rfl⟩)
        · split
          · dsimp only
            split
            · exact .inl ⟨e, _, he, rfl⟩
            · exact .inr (.inr ⟨_, .inr (.inl rfl), rfl⟩)
          · exact .inr (.inl rfl)

theorem replayFresh_fresh (h : Sound o s) {wireBytes : ℕ} {now : ℤ}
    (hok : (s.replayFresh o id seq wireBytes now).1.status = .registered ∨
      (s.replayFresh o id seq wireBytes now).1.status = .retryRegistered) :
    (s.replayFresh o id seq wireBytes now).1.deliverySeq = seq ∧
      ∀ e, s.entries.lookup id = some e → e.currentDeliverySeq ≠ seq :=
  ⟨if_pos hok, fun _ he => registerAttemptLocked_fresh h hok he⟩

theorem registerAttempt_fresh (h : Sound o s) {wireBytes : ℕ} {now : ℤ}
    (hok : (s.registerAttempt o id seq wireBytes now).1 = .registered ∨
      (s.registerAttempt o id seq wireBytes now).1 = .retryRegistered)
    (he : s.entries.lookup id = some e) : e.currentDeliverySeq ≠ seq := by
  unfold State.registerAttempt at hok
  split at hok
  · simp at hok
  · exact registerAttemptLocked_fresh h hok he

theorem registerRetryAttempt_limit {expected new maxAttempts : UInt32} {now : ℤ}
    (h : (s.registerRetryAttempt o id expected new maxAttempts now).1 = .retryRegistered)
    (he : s.entries.lookup id = some e) : e.attemptCount < maxAttempts := by
  unfold State.registerRetryAttempt at h
  grind

end DeliveryTracker

namespace ReceiverRetry

open DeliveryTracker (DeliveryIdentity Entry Change Sound Call registers)

variable {o : Options} {s s' : State} {l : Label} {ls : List Label} {a : Attempt}
  {t : DeliveryTracker.State} {id : DeliveryIdentity} {seq : UInt32} {wireBytes : ℕ} {now : ℤ}

/-! ## Registrations -/

theorem accepted_iff {status : DeliveryTracker.RegisterStatus} :
    accepted status = true ↔ status = .registered ∨ status = .retryRegistered := by
  simp [accepted]

def Label.registers : Label → Option (DeliveryIdentity × UInt32)
  | .registered a _ => some (a.id, a.deliverySeq)
  | _ => none

def Label.confirms : Label → Option DeliveryIdentity
  | .confirmed id => some id
  | _ => none

@[simp] theorem failed_registers (w : Work) (why : Failure) : (w.failed why).registers = none := by
  cases w <;> rfl

@[simp] theorem failed_confirms (w : Work) (why : Failure) : (w.failed why).confirms = none := by
  cases w <;> rfl

@[simp] theorem refused_registers (a : Attempt) (status : DeliveryTracker.RetryStatus) :
    (refused a status).registers = none := by
  unfold refused
  split <;> rfl

@[simp] theorem refused_confirms (a : Attempt) (status : DeliveryTracker.RetryStatus) :
    (refused a status).confirms = none := by
  unfold refused
  split <;> rfl

theorem register_change (o : Options) (t : DeliveryTracker.State) (id : DeliveryIdentity)
    (seq : UInt32) (wireBytes : ℕ) (now : ℤ) :
    Change o.tracker.clamp t
      (if accepted (register o t id seq wireBytes now).1.status = true
        then some (id, (register o t id seq wireBytes now).1.deliverySeq) else none)
      none (register o t id seq wireBytes now).2 := by
  simp only [accepted_iff]
  unfold register
  split
  · exact DeliveryTracker.call_change o.tracker.clamp t
      (.registerReplayAttempt id seq wireBytes now)
  · exact DeliveryTracker.call_change o.tracker.clamp t (.registerAttempt id seq wireBytes now)

theorem registerRetry_change (o : Options) (t : DeliveryTracker.State) (a : Attempt) (seq : UInt32)
    (now : ℤ) :
    Change o.tracker.clamp t
      (if (registerRetry o t a seq now).1 = .retryRegistered then some (a.id, seq) else none) none
      (registerRetry o t a seq now).2 :=
  DeliveryTracker.call_change o.tracker.clamp t
    (.registerRetryAttempt a.id a.deliverySeq seq o.receiverDeliveryMaxAttempts now)

theorem acknowledge_change (o : Options) (t : DeliveryTracker.State) (id : DeliveryIdentity)
    (seq : UInt32) :
    Change o.tracker.clamp t none
      (if (t.acknowledge o.tracker.clamp id seq).1 = .confirmed then some id else none)
      (t.acknowledge o.tracker.clamp id seq).2 :=
  DeliveryTracker.call_change o.tracker.clamp t (.acknowledge id seq)

theorem register_fresh (h : Sound o.tracker.clamp t)
    (hok : accepted (register o t id seq wireBytes now).1.status = true)
    (hfresh : (register o t id seq wireBytes now).1.reusedAttempt = false) :
    (register o t id seq wireBytes now).1.deliverySeq = seq ∧
      ∀ e, t.entries.lookup id = some e → e.currentDeliverySeq ≠ seq := by
  rw [accepted_iff] at hok
  unfold register at hok hfresh ⊢
  split at hok
  · next hdurable =>
    rw [if_pos hdurable] at hfresh ⊢
    rcases DeliveryTracker.registerReplayAttempt_cases o.tracker.clamp t id seq wireBytes now with
      ⟨e, t', -, heq⟩ | heq | ⟨status, hno, heq⟩
    · rw [heq] at hfresh
      cases hfresh
    · rw [heq] at hok ⊢
      exact DeliveryTracker.replayFresh_fresh h hok
    · rw [heq] at hok
      rcases hno with rfl | rfl | ⟨rfl, -⟩ <;> simp at hok
  · next hdurable =>
    rw [if_neg hdurable]
    exact ⟨rfl, fun e he => DeliveryTracker.registerAttempt_fresh h hok he⟩

theorem register_reused (hreused : (register o t id seq wireBytes now).1.reusedAttempt = true) :
    ∃ e, t.entries.lookup id = some e ∧
      e.currentDeliverySeq = (register o t id seq wireBytes now).1.deliverySeq := by
  unfold register at hreused ⊢
  split at hreused
  · next hdurable =>
    rw [if_pos hdurable]
    rcases DeliveryTracker.registerReplayAttempt_cases o.tracker.clamp t id seq wireBytes now with
      ⟨e, t', he, heq⟩ | heq | ⟨status, -, heq⟩
    · rw [heq]
      exact ⟨e, he, rfl⟩
    · rw [heq] at hreused
      cases hreused
    · rw [heq] at hreused
      cases hreused
  · cases hreused

theorem registerRetry_registered (h : (registerRetry o t a seq now).1 = .retryRegistered) :
    ∃ e, t.entries.lookup a.id = some e ∧ e.currentDeliverySeq = a.deliverySeq ∧
      seq ∉ e.attemptSeqs ∧ e.attemptCount < o.receiverDeliveryMaxAttempts := by
  obtain ⟨e, he, hcurrent, hnew, -⟩ := DeliveryTracker.registerRetryAttempt_registered h
  exact ⟨e, he, hcurrent, hnew, DeliveryTracker.registerRetryAttempt_limit h he⟩

def Awaited (t : DeliveryTracker.State) (a : Attempt) : Prop :=
  a.id.domain = .privateMessage ∧ ∃ e, t.entries.lookup a.id = some e ∧ e.confirmed = false ∧
    e.currentDeliverySeq = a.deliverySeq

theorem Awaited.refused (h : Awaited t a) (o : Options) (seq : UInt32) (now : ℤ) :
    refused a (registerRetry o t a seq now).1 =
      .lost a (.refused (registerRetry o t a seq now).1) := by
  obtain ⟨-, e, he, hwaiting, hcurrent⟩ := h
  refine if_neg ?_
  unfold registerRetry DeliveryTracker.State.registerRetryAttempt
  split
  · simp
  · simp only [he, hwaiting, hcurrent, ne_eq, not_true_eq_false, if_false, Bool.false_eq_true]
    split
    · simp
    · split <;> simp

theorem Awaited.pursued (h : Awaited t a) (hsound : Sound o.tracker.clamp t)
    (hwf : a.wellFormed = true) : a.pursued t = true := by
  obtain ⟨hdomain, e, he, hwaiting, hcurrent⟩ := h
  have hid : a.id = ⟨.privateMessage, a.id.messageId, a.id.recipientUserId⟩ := by
    rw [← hdomain]
  have hreceiver := (hsound.listed.receivers a.id.messageId a.id.recipientUserId).2
    ⟨e, by rw [← hid]; exact he⟩
  have hsnapshot : getSnapshot t a.id = some e := by
    rw [getSnapshot, hdomain]
    rw [hreceiver, Option.bind_some, ← hid, he]
  simp [Attempt.pursued, hwf, hsnapshot, hwaiting, hcurrent]

/-! ## What a step does to the tracker -/

theorem Step.change (hs : Step o s l s') :
    Change o.tracker.clamp s.tracker l.registers l.confirms s'.tracker := by
  cases hs with
  | register i id fromUserId connection seq wireBytes now _ hok =>
    have hc := register_change o s.tracker id seq wireBytes now
    rwa [if_pos hok] at hc
  | reuse i id fromUserId connection seq wireBytes now _ hok =>
    have hc := register_change o s.tracker id seq wireBytes now
    rwa [if_pos hok] at hc
  | rejected i id fromUserId connection seq wireBytes now _ hno =>
    have hc := register_change o s.tracker id seq wireBytes now
    rwa [if_neg (by simp [hno])] at hc
  | retry i a connection seq wireBytes now _ hok =>
    have hc := registerRetry_change o s.tracker a seq now
    rwa [if_pos hok] at hc
  | retryRefused i a connection seq wireBytes now _ hno =>
    have hc := registerRetry_change o s.tracker a seq now
    simp_all
  | acknowledge id seq hok =>
    have hc := acknowledge_change o s.tracker id seq
    rwa [if_pos hok] at hc
  | notConfirmed id seq hno =>
    have hc := acknowledge_change o s.tracker id seq
    rwa [if_neg hno] at hc
  | buildFailed =>
    rw [failed_registers, failed_confirms]
    exact .same
  | encodeFailed =>
    rw [failed_registers, failed_confirms]
    exact .same
  | _ => exact .same

theorem Step.sound (h : Sound o.tracker.clamp s.tracker) (hs : Step o s l s') :
    Sound o.tracker.clamp s'.tracker :=
  h.change (DeliveryTracker.one_le_maxAttemptSequences o.tracker) hs.change

theorem sound_of_run (h : Run (Step o) start ls s) : Sound o.tracker.clamp s.tracker :=
  h.invariant (fun _ _ _ h hs => hs.sound h) (Sound.start o.tracker.clamp)

theorem Step.entry_current (h : Sound o.tracker.clamp s.tracker) (hs : Step o s l s') {e' : Entry}
    (he' : s'.tracker.entries.lookup id = some e') :
    l.registers = some (id, e'.currentDeliverySeq) ∨ (∀ seq, l.registers ≠ some (id, seq)) ∧
      ∃ e, s.tracker.entries.lookup id = some e ∧ e.Next l.registers l.confirms id e' ∧
        e.currentDeliverySeq = e'.currentDeliverySeq :=
  hs.change.entry_current (DeliveryTracker.one_le_maxAttemptSequences o.tracker) h he'

/-! ## Attempts that are pursued -/

def State.Live (s : State) (a : Attempt) : Prop := s.Submitting a ∨ a ∈ s.timers ∨ s.Handling a

variable {i : ℕ} {stage : Stage}

theorem State.Submitting.goto (h : s.Submitting a)
    (hi : (s.threads i).submitting = some a → stage.submitting = some a) :
    (s.goto i stage).Submitting a := by
  obtain ⟨j, hj⟩ := h
  refine ⟨j, ?_⟩
  rw [goto_threads]
  grind

theorem State.Handling.goto (h : s.Handling a)
    (hi : (s.threads i).handling = some a → stage.handling = some a) :
    (s.goto i stage).Handling a := by
  obtain ⟨j, hj⟩ := h
  refine ⟨j, ?_⟩
  rw [goto_threads]
  grind

theorem submitting_goto_self (h : stage.submitting = some a) : (s.goto i stage).Submitting a :=
  ⟨i, by rw [goto_threads, Function.update_self, h]⟩

theorem handling_goto_self (h : stage.handling = some a) : (s.goto i stage).Handling a :=
  ⟨i, by rw [goto_threads, Function.update_self, h]⟩

theorem State.Live.goto (h : s.Live a)
    (hs : (s.threads i).submitting = some a → stage.submitting = some a)
    (hh : (s.threads i).handling = some a → stage.handling = some a) : (s.goto i stage).Live a := by
  rcases h with h | h | h
  · exact .inl (h.goto hs)
  · exact .inr (.inl h)
  · exact .inr (.inr (h.goto hh))

def Armed (s : State) : Prop :=
  (∀ a ∈ s.timers, a.wellFormed = true) ∧ ∀ i a, s.threads i = .timedOut a → a.wellFormed = true

theorem Armed.goto (h : Armed s)
    (hi : ∀ a, stage = .timedOut a → a.wellFormed = true) : Armed (s.goto i stage) := by
  refine ⟨h.1, ?_⟩
  intro j a hj
  rw [goto_threads] at hj
  by_cases hij : j = i
  · simp_all
  · rw [Function.update_of_ne hij] at hj
    exact h.2 j a hj

theorem Step.armed (h : Armed s) (hs : Step o s l s') : Armed s' := by
  cases hs with
  | schedule i a connection _ hwf =>
    refine ⟨?_, (h.goto (by simp)).2⟩
    intro b hb
    rcases Multiset.mem_cons.1 hb with rfl | hb
    · exact hwf
    · exact h.1 b hb
  | fire i a _ hmem =>
    refine ⟨fun b hb => h.1 b (Multiset.mem_of_mem_erase hb), (h.goto ?_).2⟩
    rintro b hb
    cases hb
    exact h.1 a hmem
  | acknowledge => exact h
  | notConfirmed => exact h
  | session => exact h
  | connection => exact h
  | _ => exact h.goto (by simp)

theorem armed_of_run (h : Run (Step o) start ls s) : Armed s := by
  refine h.invariant (fun _ _ _ h hs => hs.armed h) ⟨?_, ?_⟩
  · intro a ha
    cases ha
  · intro i a hi
    cases hi

theorem Step.registered_live {origin : Origin} (h : Sound o.tracker.clamp s.tracker)
    (hs : Step o s l s') (hl : l = .registered a origin) : s'.Live a := by
  cases hs with
  | register i id fromUserId connection seq wireBytes now _ hok hfresh =>
    cases hl
    rw [(register_fresh h hok hfresh).1]
    exact .inl (submitting_goto_self rfl)
  | reuse i =>
    cases hl
    exact .inl (submitting_goto_self rfl)
  | retry i =>
    cases hl
    exact .inl (submitting_goto_self rfl)
  | buildFailed i w => cases w <;> cases hl
  | encodeFailed i w => cases w <;> cases hl
  | retryRefused i b connection seq wireBytes now =>
    have hr := refused_registers b (registerRetry o s.tracker b seq now).1
    rw [hl] at hr
    cases hr
  | _ => cases hl

theorem State.Live.goto_of_none (h : s.Live a)
    (hs : (s.threads i).submitting = none) (hh : (s.threads i).handling = none) :
    (s.goto i stage).Live a :=
  h.goto (by simp [hs]) (by simp [hh])

theorem State.Live.goto_of_ne {b : Attempt} (h : s.Live a) (hb : b ≠ a)
    (hs : ∀ c, (s.threads i).submitting = some c → c = b)
    (hh : ∀ c, (s.threads i).handling = some c → c = b) : (s.goto i stage).Live a :=
  h.goto (fun ha => absurd (hs a ha).symm hb) (fun ha => absurd (hh a ha).symm hb)

theorem State.Live.failed {i : ℕ} {w : Work} (h : s.Live a) (why : Failure)
    (hs : (s.threads i).submitting = none)
    (hh : ∀ b, (s.threads i).handling = some b → w = .retry b) :
    (s.goto i .idle).Live a ∨ ∃ why', w.failed why = .lost a why' := by
  by_cases ha : (s.threads i).handling = some a
  · rw [hh a ha]
    exact .inr ⟨why, rfl⟩
  · exact .inl (h.goto (by simp [hs]) fun ha' => absurd ha' ha)

/-- An attempt stays live, is lost for a recorded reason, or another one takes its place. -/
theorem Step.live (h : Sound o.tracker.clamp s.tracker) (harmed : Armed s) (hs : Step o s l s')
    (hlive : s.Live a) (hawaited : Awaited s.tracker a) :
    s'.Live a ∨ (∃ why, l = .lost a why) ∨ ∃ seq, l.registers = some (a.id, seq) := by
  cases hs with
  | submit i id fromUserId connection hi =>
    exact .inl (hlive.goto_of_none (by rw [hi]; rfl) (by rw [hi]; rfl))
  | build i w connection hi =>
    refine .inl (hlive.goto (by simp [hi, Stage.submitting]) ?_)
    rw [hi]
    cases w <;> exact fun hh => hh
  | buildFailed i w connection why hi =>
    have hw : ∀ b, (s.threads i).handling = some b → w = .retry b := by
      rw [hi]
      cases w <;> simp [Stage.handling]
    rcases hlive.failed why (by rw [hi]; rfl) hw with hlive | hlost
    · exact .inl hlive
    · exact .inr (.inl hlost)
  | encode i w connection seq wireBytes hi =>
    refine .inl (hlive.goto (by simp [hi, Stage.submitting]) ?_)
    rw [hi]
    cases w <;> exact fun hh => hh
  | encodeFailed i w connection seq why hi =>
    have hw : ∀ b, (s.threads i).handling = some b → w = .retry b := by
      rw [hi]
      cases w <;> simp [Stage.handling]
    rcases hlive.failed why (by rw [hi]; rfl) hw with hlive | hlost
    · exact .inl hlive
    · exact .inr (.inl hlost)
  | register i id fromUserId connection seq wireBytes now hi =>
    exact .inl (hlive.goto_of_none (by rw [hi]; rfl) (by rw [hi]; rfl))
  | reuse i id fromUserId connection seq wireBytes now hi =>
    exact .inl (hlive.goto_of_none (by rw [hi]; rfl) (by rw [hi]; rfl))
  | rejected i id fromUserId connection seq wireBytes now hi =>
    exact .inl (hlive.goto_of_none (by rw [hi]; rfl) (by rw [hi]; rfl))
  | retry i b connection seq wireBytes now hi =>
    by_cases hb : b = a
    · subst hb
      exact .inr (.inr ⟨seq, rfl⟩)
    · exact .inl (hlive.goto_of_ne hb (by simp [hi, Stage.submitting])
        (by simp [hi, Stage.handling]))
  | retryRefused i b connection seq wireBytes now hi =>
    by_cases hb : b = a
    · subst hb
      exact .inr (.inl ⟨_, hawaited.refused o seq now⟩)
    · exact .inl (hlive.goto_of_ne hb (by simp [hi, Stage.submitting])
        (by simp [hi, Stage.handling]))
  | reencode i b connection hi =>
    exact .inl (hlive.goto (by rw [hi]; exact fun hh => hh) (by simp [hi, Stage.handling]))
  | reencodeFailed i b connection hi =>
    by_cases hb : b = a
    · subst hb
      exact .inr (.inl ⟨_, rfl⟩)
    · exact .inl (hlive.goto_of_ne hb (by simp [hi, Stage.submitting])
        (by simp [hi, Stage.handling]))
  | send i b connection hi =>
    exact .inl (hlive.goto (by rw [hi]; exact fun hh => hh) (by simp [hi, Stage.handling]))
  | schedule i b connection hi =>
    by_cases hb : b = a
    · subst hb
      exact .inl (.inr (.inl (Multiset.mem_cons_self b _)))
    · have hgoto : (s.goto i .idle).Live a :=
        hlive.goto_of_ne hb (by simp [hi, Stage.submitting]) (by simp [hi, Stage.handling])
      exact .inl (hgoto.imp_right (Or.imp_left Multiset.mem_cons_of_mem))
  | notScheduled i b connection hi =>
    by_cases hb : b = a
    · subst hb
      exact .inr (.inl ⟨_, rfl⟩)
    · exact .inl (hlive.goto_of_ne hb (by simp [hi, Stage.submitting])
        (by simp [hi, Stage.handling]))
  | fire i b hi =>
    by_cases hb : a = b
    · subst hb
      exact .inl (.inr (.inr (handling_goto_self rfl)))
    · have hgoto : (s.goto i (.timedOut b)).Live a :=
        hlive.goto_of_none (by rw [hi]; rfl) (by rw [hi]; rfl)
      exact .inl (hgoto.imp_right (Or.imp_left (Multiset.mem_erase_of_ne hb).2))
  | pursue i b hi =>
    exact .inl (hlive.goto (by simp [hi, Stage.submitting]) (by rw [hi]; exact fun hh => hh))
  | settled i b hi hno =>
    by_cases hb : b = a
    · subst hb
      rw [hawaited.pursued h (harmed.2 i b hi)] at hno
      cases hno
    · exact .inl (hlive.goto_of_ne hb (by simp [hi, Stage.submitting])
        (by simp [hi, Stage.handling]))
  | find i b connection hi =>
    exact .inl (hlive.goto (by simp [hi, Stage.submitting]) (by rw [hi]; exact fun hh => hh))
  | noSession i b hi =>
    by_cases hb : b = a
    · subst hb
      exact .inr (.inl ⟨_, rfl⟩)
    · exact .inl (hlive.goto_of_ne hb (by simp [hi, Stage.submitting])
        (by simp [hi, Stage.handling]))
  | acknowledge => exact .inl hlive
  | notConfirmed => exact .inl hlive
  | session => exact .inl hlive
  | connection => exact .inl hlive

/-! ## The last registration -/

theorem lastRegistered_snoc (id : DeliveryIdentity) (ls : List Label) (l : Label) :
    lastRegistered id (ls ++ [l]) =
      match l with
      | .registered a _ => if a.id = id then some a else lastRegistered id ls
      | _ => lastRegistered id ls := by
  unfold lastRegistered
  grind

theorem lastRegistered_other (h : ∀ seq, l.registers ≠ some (id, seq)) :
    lastRegistered id (ls ++ [l]) = lastRegistered id ls := by
  rw [lastRegistered_snoc]
  cases l with
  | registered a origin =>
    refine if_neg ?_
    rintro rfl
    exact h _ rfl
  | _ => rfl

theorem lastRegistered_id (h : lastRegistered id ls = some a) : a.id = id := by
  induction ls using List.reverseRecOn with
  | nil => cases h
  | append_singleton ls l ih =>
    rw [lastRegistered_snoc] at h
    grind

theorem registers_eq_some (h : l.registers = some (id, seq)) :
    ∃ a origin, l = .registered a origin ∧ a.id = id ∧ a.deliverySeq = seq := by
  cases l with
  | registered a origin =>
    cases h
    exact ⟨a, origin, rfl, rfl, rfl⟩
  | _ => cases h

/-- Every private message that waits has its last registration live, or lost for a recorded
reason. -/
def Chained (ls : List Label) (s : State) : Prop :=
  ∀ id e, id.domain = .privateMessage → s.tracker.entries.lookup id = some e → e.confirmed = false →
    ∃ a, lastRegistered id ls = some a ∧ a.deliverySeq = e.currentDeliverySeq ∧
      (s.Live a ∨ ∃ why, .lost a why ∈ ls)

theorem Step.chained (h : Sound o.tracker.clamp s.tracker) (harmed : Armed s) (hc : Chained ls s)
    (hs : Step o s l s') : Chained (ls ++ [l]) s' := by
  intro id e' hdomain he' hwaiting'
  rcases hs.entry_current h he' with hreg | ⟨hother, e, he, hnext, hcurrent⟩
  · obtain ⟨a, origin, rfl, rfl, hseq⟩ := registers_eq_some hreg
    refine ⟨a, ?_, hseq, .inl (hs.registered_live h rfl)⟩
    rw [lastRegistered_snoc]
    exact if_pos rfl
  · have hwaiting : e.confirmed = false := by
      by_contra hconfirmed
      rw [hnext.confirmed (by simpa using hconfirmed)] at hwaiting'
      cases hwaiting'
    obtain ⟨a, hlast, hseq, hchain⟩ := hc id e hdomain he hwaiting
    have hid := lastRegistered_id hlast
    refine ⟨a, by rw [lastRegistered_other hother, hlast], hseq.trans hcurrent, ?_⟩
    rcases hchain with hlive | ⟨why, hlost⟩
    · have hawaited : Awaited s.tracker a :=
        ⟨by rw [hid, hdomain], e, by rw [hid, he], hwaiting, hseq.symm⟩
      rcases hs.live h harmed hlive hawaited with hlive | ⟨why, rfl⟩ | ⟨seq, hreg⟩
      · exact .inl hlive
      · exact .inr ⟨why, by simp⟩
      · simp_all
    · exact .inr ⟨why, List.mem_append_left _ hlost⟩

theorem chained_of_run (h : Run (Step o) start ls s) : Chained ls s := by
  suffices hall : Sound o.tracker.clamp s.tracker ∧ Armed s ∧ Chained ls s from hall.2.2
  refine h.history (I := fun ls s => Sound o.tracker.clamp s.tracker ∧ Armed s ∧ Chained ls s) ?_ ?_
  · intro ls s l s' hinv hs
    exact ⟨hs.sound hinv.1, hs.armed hinv.2.1, hs.chained hinv.1 hinv.2.1 hinv.2.2⟩
  · refine ⟨Sound.start _, armed_of_run (@Run.nil _ _ (Step o) start), ?_⟩
    intro id e _ he
    cases he

/-! ## What is sent -/

theorem submitting_of_goto (h : (s.goto i stage).Submitting a) :
    stage.submitting = some a ∨ s.Submitting a := by
  obtain ⟨j, hj⟩ := h
  rw [goto_threads] at hj
  by_cases hij : j = i
  · simp_all
  · rw [Function.update_of_ne hij] at hj
    exact .inr ⟨j, hj⟩

theorem Step.submitting (h : Sound o.tracker.clamp s.tracker) (hs : Step o s l s')
    (ha : s'.Submitting a) : s.Submitting a ∨ ∃ origin, l = .registered a origin := by
  cases hs with
  | register i id fromUserId connection seq wireBytes now _ hok hfresh =>
    rcases submitting_of_goto ha with hstage | hold
    · cases hstage
      rw [(register_fresh h hok hfresh).1]
      exact .inr ⟨_, rfl⟩
    · exact .inl hold
  | reuse =>
    rcases submitting_of_goto ha with hstage | hold
    · cases hstage
      exact .inr ⟨_, rfl⟩
    · exact .inl hold
  | retry =>
    rcases submitting_of_goto ha with hstage | hold
    · cases hstage
      exact .inr ⟨_, rfl⟩
    · exact .inl hold
  | reencode i b connection hi =>
    rcases submitting_of_goto ha with hstage | hold
    · exact .inl ⟨i, by rw [hi]; exact hstage⟩
    · exact .inl hold
  | send i b connection hi =>
    rcases submitting_of_goto ha with hstage | hold
    · exact .inl ⟨i, by rw [hi]; exact hstage⟩
    · exact .inl hold
  | acknowledge => exact .inl ha
  | notConfirmed => exact .inl ha
  | session => exact .inl ha
  | connection => exact .inl ha
  | _ =>
    rcases submitting_of_goto ha with hstage | hold
    · cases hstage
    · exact .inl hold

theorem registered_of_submitting (h : Run (Step o) start ls s) (ha : s.Submitting a) :
    ∃ origin, .registered a origin ∈ ls := by
  suffices hall : Sound o.tracker.clamp s.tracker ∧
      ∀ a, s.Submitting a → ∃ origin, .registered a origin ∈ ls from hall.2 a ha
  refine h.history (I := fun ls s => Sound o.tracker.clamp s.tracker ∧
    ∀ a, s.Submitting a → ∃ origin, .registered a origin ∈ ls) ?_ ?_
  · intro ls s l s' hinv hs
    refine ⟨hs.sound hinv.1, fun a ha => ?_⟩
    rcases hs.submitting hinv.1 ha with hold | ⟨origin, rfl⟩
    · grind
    · exact ⟨origin, by simp⟩
  · refine ⟨Sound.start _, fun a ha => ?_⟩
    obtain ⟨i, hi⟩ := ha
    cases hi

theorem Step.sent (hs : Step o s l s') (hl : l = .sent a) : s.Submitting a := by
  cases hs with
  | send i b connection hi =>
    cases hl
    exact ⟨i, by rw [hi]; rfl⟩
  | buildFailed i w => cases w <;> cases hl
  | encodeFailed i w => cases w <;> cases hl
  | retryRefused i b connection seq wireBytes now =>
    unfold ReceiverRetry.refused at hl
    split at hl <;> cases hl
  | _ => cases hl

theorem registered_of_sent {pre post : List Label} (h : Run (Step o) start ls s)
    (hls : ls = pre ++ .sent a :: post) : ∃ origin, .registered a origin ∈ pre := by
  subst hls
  obtain ⟨t, t', hrun, hs, -⟩ := h.exists_step
  exact registered_of_submitting hrun (hs.sent rfl)

/-! ## Confirmations -/

theorem confirmsOther_of_none (h : l.confirms = none) (id : DeliveryIdentity) :
    l.confirmsOther id = false := by
  cases l with
  | confirmed id' => cases h
  | _ => rfl

theorem confirmsOther_of_ne {id' : DeliveryIdentity} (h : l.confirms = some id') (hne : id' ≠ id) :
    l.confirmsOther id = true := by
  cases l with
  | confirmed id₁ =>
    cases h
    simpa [Label.confirmsOther] using hne
  | _ => cases h

theorem behind_of_run (h : Sound o.tracker.clamp s.tracker)
    (hb : DeliveryTracker.Behind id 0 s.tracker) (hrun : Run (Step o) s ls s') :
    o.tracker.clamp.maxRecentConfirmed ≤ ls.countP (Label.confirmsOther id) ∨
      DeliveryTracker.Behind id (ls.countP (Label.confirmsOther id)) s'.tracker := by
  let I (ls : List Label) (s : State) : Prop := Sound o.tracker.clamp s.tracker ∧
    (o.tracker.clamp.maxRecentConfirmed ≤ ls.countP (Label.confirmsOther id) ∨
      DeliveryTracker.Behind id (ls.countP (Label.confirmsOther id)) s.tracker)
  suffices hall : I ls s' from hall.2
  refine hrun.history ?_ ⟨h, .inr hb⟩
  intro ls s l s' hinv hs
  refine ⟨hs.sound hinv.1, ?_⟩
  rw [List.countP_append, List.countP_singleton]
  rcases hinv.2 with hfull | hbehind
  · exact .inl (hfull.trans (Nat.le_add_right _ _))
  · rcases hbehind.change hinv.1 hs.change with ⟨hk, hb'⟩ | ⟨id', hk, hne, hfull | hb'⟩
    · rw [confirmsOther_of_none hk]
      exact .inr hb'
    · rw [confirmsOther_of_ne hk hne]
      exact .inl hfull
    · rw [confirmsOther_of_ne hk hne]
      exact .inr hb'

theorem forgotten_of_registered {pre mid post : List Label} {origin : Origin}
    (h : Run (Step o) start (pre ++ .confirmed a.id :: (mid ++ .registered a origin :: post)) s) :
    o.tracker.clamp.maxRecentConfirmed ≤ mid.countP (Label.confirmsOther a.id) := by
  obtain ⟨t, t', hpre, hconfirm, hrest⟩ := h.exists_step
  obtain ⟨u, u', hmid, hregister, -⟩ := hrest.exists_step
  have hsound := hconfirm.sound (sound_of_run hpre)
  have hbehind := hconfirm.change.behind (le_max_right _ 1) (sound_of_run hpre)
  rcases behind_of_run hsound hbehind hmid with hfull | hb
  · exact hfull
  · have hsound' := hmid.invariant (fun _ _ _ h hs => hs.sound h) hsound
    obtain ⟨e, he, hconfirmed⟩ := hb.confirmed hsound'
    rw [hregister.change.not_confirmed he] at hconfirmed
    cases hconfirmed

theorem sent_after_confirmed {pre mid post : List Label}
    (h : Run (Step o) start (pre ++ .confirmed a.id :: (mid ++ .sent a :: post)) s) :
    (∃ origin, .registered a origin ∈ pre) ∨
      o.tracker.clamp.maxRecentConfirmed ≤ mid.countP (Label.confirmsOther a.id) := by
  have hsplit : pre ++ .confirmed a.id :: (mid ++ .sent a :: post) =
      (pre ++ .confirmed a.id :: mid) ++ .sent a :: post := by simp
  obtain ⟨origin, hmem⟩ := registered_of_sent h hsplit
  rcases List.mem_append.1 hmem with hmem | hmem
  · exact .inl ⟨origin, hmem⟩
  · rcases List.mem_cons.1 hmem with heq | hmem
    · cases heq
    · obtain ⟨mid₁, mid₂, rfl⟩ := List.append_of_mem hmem
      refine .inr ?_
      rw [List.append_assoc, List.cons_append] at h
      refine (forgotten_of_registered h).trans ?_
      simp_all

/-! ## Retries -/

def Holds (t : DeliveryTracker.State) (id : DeliveryIdentity) (seq : UInt32) : Prop :=
  ∃ e, t.entries.lookup id = some e ∧ e.currentDeliverySeq = seq

theorem Step.holds (h : Sound o.tracker.clamp s.tracker) (hs : Step o s l s')
    (hh : Holds s'.tracker id seq) : l.registers = some (id, seq) ∨
      (∀ seq', l.registers ≠ some (id, seq')) ∧ Holds s.tracker id seq := by
  obtain ⟨e', he', rfl⟩ := hh
  rcases hs.entry_current h he' with hreg | ⟨hother, e, he, -, hcurrent⟩
  · exact .inl hreg
  · exact .inr ⟨hother, e, he, hcurrent⟩

theorem Step.origin {origin : Origin} (hs : Step o s l s') (hl : l = .registered a origin) :
    (origin = .reused → Holds s.tracker a.id a.deliverySeq) ∧
      ∀ old, origin = .retry old → ∃ e, s.tracker.entries.lookup a.id = some e ∧
        e.currentDeliverySeq = old ∧ a.deliverySeq ∉ e.attemptSeqs ∧
        e.attemptCount < o.receiverDeliveryMaxAttempts := by
  cases hs with
  | register =>
    cases hl
    exact ⟨by simp, by simp⟩
  | reuse i id fromUserId connection seq wireBytes now _ _ hreused =>
    cases hl
    exact ⟨fun _ => register_reused hreused, by simp⟩
  | retry i b connection seq wireBytes now _ hok =>
    cases hl
    refine ⟨by simp, ?_⟩
    rintro old hold
    cases hold
    exact registerRetry_registered hok
  | buildFailed i w => cases w <;> cases hl
  | encodeFailed i w => cases w <;> cases hl
  | retryRefused i b connection seq wireBytes now =>
    unfold ReceiverRetry.refused at hl
    split at hl <;> cases hl
  | _ => cases hl

theorem attempts_eq_false (h : ∀ seq, l.registers ≠ some (id, seq)) (seq : UInt32) :
    l.attempts id seq = false ∧ l.retries id seq = false ∧ l.submits id = false := by
  cases l with
  | registered a origin =>
    have hid : a.id ≠ id := by
      rintro rfl
      exact h _ rfl
    simp [Label.attempts, Label.retries, Label.submits, hid]
  | _ => exact ⟨rfl, rfl, rfl⟩

def Once (ls : List Label) (s : State) : Prop :=
  ∀ id seq, ls.countP (Label.retries id seq) ≤ ls.countP (Label.attempts id seq) ∧
    (Holds s.tracker id seq →
      ls.countP (Label.retries id seq) < ls.countP (Label.attempts id seq))

theorem Step.once (h : Sound o.tracker.clamp s.tracker) (ho : Once ls s) (hs : Step o s l s') :
    Once (ls ++ [l]) s' := by
  intro id seq
  obtain ⟨hle, hlt⟩ := ho id seq
  rw [List.countP_append, List.countP_append, List.countP_singleton, List.countP_singleton]
  by_cases hreg : ∃ seq', l.registers = some (id, seq')
  · obtain ⟨seq', hreg⟩ := hreg
    have hnew : Holds s'.tracker id seq → seq = seq' := by
      intro hh
      rcases hs.holds h hh with hreg' | ⟨hother, -⟩
      · simp_all
      · exact absurd hreg (hother seq')
    obtain ⟨a, origin, rfl, rfl, rfl⟩ := registers_eq_some hreg
    obtain ⟨hreused, hretry⟩ := hs.origin rfl
    cases origin with
    | submitted =>
      simp only [Label.attempts, Label.retries, decide_true, Bool.true_and, reduceCtorEq,
        decide_false, Bool.false_eq_true, if_false, ne_eq, not_false_eq_true, Bool.and_true,
        decide_eq_true_eq]
      refine ⟨by omega, fun hh => ?_⟩
      rw [if_pos (hnew hh).symm]
      omega
    | reused =>
      simp only [Label.attempts, Label.retries, decide_true, Bool.true_and, reduceCtorEq,
        decide_false, Bool.false_eq_true, if_false, ne_eq, not_true_eq_false, Bool.and_false]
      grind
    | retry old =>
      obtain ⟨e, he, hold, hfresh, -⟩ := hretry old rfl
      have hne : a.deliverySeq ≠ old := by
        rintro hsame
        exact hfresh (hsame ▸ hold ▸ (h.fine _ e he).current)
      simp only [Label.attempts, Label.retries, decide_true, Bool.true_and, Origin.retry.injEq,
        reduceCtorEq, ne_eq, not_false_eq_true, Bool.and_true, decide_eq_true_eq]
      by_cases hseq : old = seq
      · subst hseq
        rw [if_pos rfl, if_neg hne]
        have := hlt ⟨e, he, hold⟩
        exact ⟨by omega, fun hh => absurd (hnew hh).symm hne⟩
      · rw [if_neg hseq]
        refine ⟨by omega, fun hh => ?_⟩
        rw [if_pos (hnew hh).symm]
        omega
  · push Not at hreg
    obtain ⟨hattempts, hretries, -⟩ := attempts_eq_false hreg seq
    rw [hattempts, hretries]
    refine ⟨hle, fun hh => ?_⟩
    rcases hs.holds h hh with hreg' | ⟨-, hh⟩
    · exact absurd hreg' (hreg seq)
    · exact hlt hh

theorem once_of_run (h : Run (Step o) start ls s) : Once ls s := by
  suffices hall : Sound o.tracker.clamp s.tracker ∧ Once ls s from hall.2
  refine h.history (I := fun ls s => Sound o.tracker.clamp s.tracker ∧ Once ls s)
    (fun ls s l s' hinv hs => ⟨hs.sound hinv.1, hs.once hinv.1 hinv.2⟩) ⟨Sound.start _, ?_⟩
  intro id seq
  refine ⟨Nat.le_refl _, ?_⟩
  rintro ⟨e, he, -⟩
  cases he

/-- Timeouts bring an identity to the limit at most; each further submission adds one attempt. -/
def Bounded (o : Options) (ls : List Label) (s : State) : Prop :=
  ∀ id e, s.tracker.entries.lookup id = some e → 1 ≤ ls.countP (Label.submits id) ∧
    e.attemptCount.toNat + 1 ≤
      max o.receiverDeliveryMaxAttempts.toNat 1 + ls.countP (Label.submits id)

theorem Step.bounded (h : Sound o.tracker.clamp s.tracker) (hb : Bounded o ls s)
    (hs : Step o s l s') : Bounded o (ls ++ [l]) s' := by
  intro id e' he'
  have hcount' := ((hs.sound h).fine id e' he').count
  rw [List.countP_append, List.countP_singleton, hcount']
  rcases hs.change.entry h he' with ⟨e, he, hnext⟩ | ⟨hnone, seq, hreg, hseqs⟩
  · obtain ⟨hone, hle⟩ := hb id e he
    have hcount := (h.fine id e he).count
    refine ⟨by omega, ?_⟩
    by_cases hreg : ∃ seq, l.registers = some (id, seq)
    · obtain ⟨seq, hreg⟩ := hreg
      have hsub : e'.attemptSeqs ⊆ insert seq e.attemptSeqs := by
        intro seq' hmem
        rcases hnext.seqs seq' hmem with hold | hreg'
        · exact Finset.mem_insert_of_mem hold
        · simp_all
      have hcard := (Finset.card_le_card hsub).trans (Finset.card_insert_le _ _)
      obtain ⟨a, origin, rfl, rfl, rfl⟩ := registers_eq_some hreg
      obtain ⟨hreused, hretry⟩ := hs.origin rfl
      cases origin with
      | submitted =>
        rw [if_pos (by simp [Label.submits])]
        omega
      | reused =>
        obtain ⟨e₁, he₁, hcurrent⟩ := hreused rfl
        rw [he] at he₁
        cases he₁
        rw [← hcurrent, Finset.insert_eq_of_mem (h.fine _ e he).current] at hsub
        have := Finset.card_le_card hsub
        omega
      | retry old =>
        obtain ⟨e₁, he₁, -, -, hlimit⟩ := hretry old rfl
        rw [he] at he₁
        cases he₁
        have := UInt32.lt_iff_toNat_lt.1 hlimit
        omega
    · push Not at hreg
      have hsub : e'.attemptSeqs ⊆ e.attemptSeqs := by
        intro seq' hmem
        rcases hnext.seqs seq' hmem with hold | hreg'
        · exact hold
        · exact absurd hreg' (hreg seq')
      have := Finset.card_le_card hsub
      omega
  · obtain ⟨a, origin, rfl, rfl, rfl⟩ := registers_eq_some hreg
    obtain ⟨hreused, hretry⟩ := hs.origin rfl
    rw [hseqs, Finset.card_singleton]
    cases origin with
    | submitted =>
      rw [if_pos (by simp [Label.submits])]
      omega
    | reused =>
      obtain ⟨e₁, he₁, -⟩ := hreused rfl
      rw [hnone] at he₁
      cases he₁
    | retry old =>
      grind

theorem bounded_of_run (h : Run (Step o) start ls s) : Bounded o ls s := by
  suffices hall : Sound o.tracker.clamp s.tracker ∧ Bounded o ls s from hall.2
  refine h.history (I := fun ls s => Sound o.tracker.clamp s.tracker ∧ Bounded o ls s)
    (fun ls s l s' hinv hs => ⟨hs.sound hinv.1, hs.bounded hinv.1 hinv.2⟩) ⟨Sound.start _, ?_⟩
  intro id e he
  cases he

/-! ## Tickets -/

/-! ## Whole runs -/

/-- In every run, what is sent was registered, under the same identity and sequence; nothing is sent
for a confirmed identity unless it was registered before or the tracker has confirmed enough others
since to forget it; each attempt is retried at most once, and only submissions bring an entry above
the limit; and a private message that waits is still being submitted, or its timer is armed or being
handled, or lost for a recorded reason. -/
theorem receiver_retry_chain (o : Options) {ls : List Label} {s : State}
    (h : Run (Step o) start ls s) :
    (∀ pre a post, ls = pre ++ .sent a :: post → ∃ origin, .registered a origin ∈ pre) ∧
    (∀ pre mid a post, ls = pre ++ .confirmed a.id :: (mid ++ .sent a :: post) →
      (∃ origin, .registered a origin ∈ pre) ∨
        o.tracker.clamp.maxRecentConfirmed ≤ mid.countP (Label.confirmsOther a.id)) ∧
    (∀ id seq, ls.countP (Label.retries id seq) ≤ ls.countP (Label.attempts id seq)) ∧
    (∀ id e, s.tracker.entries.lookup id = some e → e.attemptCount.toNat + 1 ≤
      max o.receiverDeliveryMaxAttempts.toNat 1 + ls.countP (Label.submits id)) ∧
    ∀ id e, id.domain = .privateMessage → s.tracker.entries.lookup id = some e →
      e.confirmed = false →
      ∃ a, lastRegistered id ls = some a ∧ a.deliverySeq = e.currentDeliverySeq ∧
        (s.Submitting a ∨ a ∈ s.timers ∨ s.Handling a ∨ ∃ why, .lost a why ∈ ls) := by
  refine ⟨fun pre a post hls => registered_of_sent h hls, ?_,
    fun id seq => (once_of_run h id seq).1, fun id e he => (bounded_of_run h id e he).2, ?_⟩
  · rintro pre mid a post rfl
    exact sent_after_confirmed h
  · intro id e hdomain he hwaiting
    obtain ⟨a, hlast, hseq, hchain⟩ := chained_of_run h id e hdomain he hwaiting
    refine ⟨a, hlast, hseq, ?_⟩
    rcases hchain with (hsubmitting | htimer | hhandling) | hlost
    · exact .inl hsubmitting
    · exact .inr (.inl htimer)
    · exact .inr (.inr (.inl hhandling))
    · exact .inr (.inr (.inr hlost))

/-! ## A confirmation that is forgotten -/

def sample : Options where
  tracker := ⟨1, 10, 10, 1000, 1000, 10, 0, 0⟩
  enableDurablePrivateRecovery := false
  receiverDeliveryMaxAttempts := 3
  receiverAckTimeout := 5000

def firstMessage : DeliveryIdentity := ⟨.privateMessage, 1, 2⟩

def secondMessage : DeliveryIdentity := ⟨.privateMessage, 2, 2⟩

def forgetting : List Label :=
  [.silent, .silent, .silent, .silent, .registered ⟨0, firstMessage, 9, 1⟩ .submitted,
    .sent ⟨0, firstMessage, 9, 1⟩, .confirmed firstMessage,
    .silent, .silent, .silent, .registered ⟨1, secondMessage, 9, 2⟩ .submitted,
    .sent ⟨1, secondMessage, 9, 2⟩, .confirmed secondMessage,
    .silent, .silent, .silent, .registered ⟨2, firstMessage, 9, 3⟩ .submitted,
    .sent ⟨2, firstMessage, 9, 3⟩]

def State.sentTo (s : State) (i : ℕ) (a : Attempt) : State :=
  { s with
    tracker := (register sample s.tracker a.id a.deliverySeq 10 0).2
    nextReceiverDeliverySeq := (ReceiverRetry.nextReceiverDeliverySeq s.nextReceiverDeliverySeq).2
    registrations := s.registrations + 1
    threads := Function.update s.threads i (.scheduling a 0) }

def deliver (a : Attempt) : List Label :=
  [.silent, .silent, .silent, .registered a .submitted, .sent a]

theorem submission_run {s : State} {a : Attempt} (hidle : s.threads i = .idle)
    (hconnected : s.connected 0 = true) (hticket : a.ticket = s.registrations)
    (hseq : (nextReceiverDeliverySeq s.nextReceiverDeliverySeq).1 = a.deliverySeq)
    (hregister : accepted (register sample s.tracker a.id a.deliverySeq 10 0).1.status = true) :
    Run (Step sample) s (deliver a) (s.sentTo i a) := by
  obtain ⟨ticket, id, fromUserId, seq⟩ := a
  obtain rfl : ticket = s.registrations := hticket
  obtain rfl : _ = seq := hseq
  have hrun := Run.cons (Step.submit s i id fromUserId 0 hidle) <|
    .cons (.build _ i _ 0 (Function.update_self i _ _) hconnected) <|
    .cons (.encode _ i _ 0 _ 10 (Function.update_self i _ _) hconnected) <|
    .cons (.register _ i id fromUserId 0 _ 10 0 (Function.update_self i _ _) hregister rfl) <|
    .cons (.send _ i _ 0 (Function.update_self i _ _)) (.nil _)
  simp only [State.goto, State.registered, Function.update_idem] at hrun
  exact hrun

def State.acknowledged (s : State) (id : DeliveryIdentity) (seq : UInt32) : State :=
  { s with tracker := (s.tracker.acknowledge sample.tracker.clamp id seq).2 }

theorem forgetting_run : ∃ s, Run (Step sample) start forgetting s := by
  obtain ⟨s, hs⟩ :
    ∃ s : State, s = { start with connected := Function.update start.connected 0 true } := ⟨_, rfl⟩
  obtain ⟨t, ht⟩ : ∃ t, t = (s.sentTo 0 ⟨0, firstMessage, 9, 1⟩).acknowledged firstMessage 1 :=
    ⟨_, rfl⟩
  obtain ⟨u, hu⟩ : ∃ u, u = (t.sentTo 1 ⟨1, secondMessage, 9, 2⟩).acknowledged secondMessage 2 :=
    ⟨_, rfl⟩
  have hfirst :
      Run (Step sample) s (deliver ⟨0, firstMessage, 9, 1⟩ ++ [.confirmed firstMessage]) t := by
    rw [ht]
    exact (submission_run (by rw [hs]; rfl) (by rw [hs]; rfl) (by rw [hs]; rfl) (by rw [hs]; rfl)
      (by rw [hs]; rfl)).snoc (.acknowledge _ firstMessage 1 (by rw [hs]; rfl))
  have hsecond :
      Run (Step sample) t (deliver ⟨1, secondMessage, 9, 2⟩ ++ [.confirmed secondMessage]) u := by
    rw [hu]
    exact (submission_run (by rw [ht, hs]; rfl) (by rw [ht, hs]; rfl) (by rw [ht, hs]; rfl)
      (by rw [ht, hs]; rfl) (by rw [ht, hs]; rfl)).snoc
      (.acknowledge _ secondMessage 2 (by rw [ht, hs]; rfl))
  have hagain : Run (Step sample) u (deliver ⟨2, firstMessage, 9, 3⟩)
      (u.sentTo 2 ⟨2, firstMessage, 9, 3⟩) :=
    submission_run (by rw [hu, ht, hs]; rfl) (by rw [hu, ht, hs]; rfl) (by rw [hu, ht, hs]; rfl)
      (by rw [hu, ht, hs]; rfl) (by rw [hu, ht, hs]; rfl)
  have hconnect : Run (Step sample) start [.silent] s := by
    rw [hs]
    exact .single (.connection _ 0 true)
  exact ⟨u.sentTo 2 ⟨2, firstMessage, 9, 3⟩,
    ((hconnect.append hfirst).append hsecond).append hagain⟩

theorem receiver_retry_chain_forgetting :
    ∃ s, Run (Step sample) start forgetting s ∧
      ∀ id seq, forgetting.countP (Label.retries id seq) ≤
        forgetting.countP (Label.attempts id seq) := by
  obtain ⟨s, h⟩ := forgetting_run
  exact ⟨s, h, (receiver_retry_chain sample h).2.2.1⟩

/-- Once the tracker forgot the first message, a packet for it is registered and sent again. -/
theorem sent_after_forgotten :
    ¬ ∀ (o : Options) (ls : List Label) (s : State), Run (Step o) start ls s →
      ∀ pre mid a post, ls = pre ++ .confirmed a.id :: (mid ++ .sent a :: post) →
        ∃ origin, .registered a origin ∈ pre := by
  intro h
  obtain ⟨s, hrun⟩ := forgetting_run
  obtain ⟨origin, hmem⟩ := h sample forgetting s hrun (forgetting.take 6)
    ((forgetting.drop 7).take 10) ⟨2, firstMessage, 9, 3⟩ [] rfl
  simp [forgetting] at hmem

end ReceiverRetry

end TinyImx.Gateway
