import TinyImx.Gateway.DeliveryAccounting

/-!
# Histories of the delivery tracker

What an acknowledgement says about the calls before it: the attempt was registered, each retained
identity is confirmed once, and a confirmed identity is kept until enough others were confirmed.
-/

namespace TinyImx.Gateway.DeliveryTracker

variable {o : Options} {s s' : State} {id id' : DeliveryIdentity} {e e' : Entry} {seq : UInt32}
  {r : Option (DeliveryIdentity × UInt32)} {k : Option DeliveryIdentity} {calls mid : List Call}

def State.after (o : Options) (s : State) (calls : List Call) : State :=
  calls.foldl (fun s c => (s.call o c).2) s

@[simp] theorem after_nil (o : Options) (s : State) : s.after o [] = s := rfl

@[simp] theorem after_cons (o : Options) (s : State) (c : Call) (calls : List Call) :
    s.after o (c :: calls) = (s.call o c).2.after o calls := rfl

/-! ## What a call does to an entry -/

/-- What a change that registers `r` and confirms `k` makes of the entry `e` of `id`. -/
structure Entry.Next (r : Option (DeliveryIdentity × UInt32)) (k : Option DeliveryIdentity)
    (id : DeliveryIdentity) (e e' : Entry) : Prop where
  seqs : ∀ seq ∈ e'.attemptSeqs, seq ∈ e.attemptSeqs ∨ r = some (id, seq)
  kept : e.attemptSeqs ⊆ e'.attemptSeqs
  confirmed : e.confirmed = true → e'.confirmed = true
  current : e'.currentDeliverySeq = e.currentDeliverySeq ∨ e'.currentDeliverySeq ∉ e.attemptSeqs

theorem Entry.Next.refl (r : Option (DeliveryIdentity × UInt32)) (k : Option DeliveryIdentity)
    (id : DeliveryIdentity) (e : Entry) : e.Next r k id e :=
  ⟨fun _ h => .inl h, Finset.Subset.refl _, fun h => h, .inl rfl⟩

theorem Entry.Next.attempt (k : Option DeliveryIdentity) (id : DeliveryIdentity)
    (hnew : seq ∉ e.attemptSeqs) (hseqs : e'.attemptSeqs = insert seq e.attemptSeqs)
    (hconfirmed : e'.confirmed = e.confirmed) (hcurrent : e'.currentDeliverySeq = seq) :
    e.Next (some (id, seq)) k id e' where
  seqs seq' h := by
    rw [hseqs, Finset.mem_insert] at h
    rcases h with rfl | h
    · exact .inr rfl
    · exact .inl h
  kept := by
    simp_all
  confirmed h := hconfirmed.trans h
  current := .inr (hcurrent ▸ hnew)

theorem Change.entry (h : Sound o s) (hc : Change o s r k s') (he' : s'.entries.lookup id = some e') :
    (∃ e, s.entries.lookup id = some e ∧ e.Next r k id e') ∨
      (s.entries.lookup id = none ∧ ∃ seq, r = some (id, seq) ∧ e'.attemptSeqs = {seq}) := by
  have hput : ∀ {id₀ : DeliveryIdentity} {e₀ e₁ : Entry}, s.entries.lookup id₀ = some e₀ →
      (s.entries.insert id₀ e₁).lookup id = some e' → e₀.Next r k id₀ e₁ →
      ∃ e, s.entries.lookup id = some e ∧ e.Next r k id e' := by
    intro id₀ e₀ e₁ he₀ hlookup hnext
    rcases lookup_insert_cases hlookup with ⟨rfl, rfl⟩ | ⟨-, hold⟩
    · exact ⟨e₀, he₀, hnext⟩
    · exact ⟨e', hold, .refl ..⟩
  cases hc with
  | same => exact .inl ⟨e', he', .refl ..⟩
  | enroll id₀ seq wireBytes now _ hnone =>
    rcases lookup_insert_cases he' with ⟨rfl, rfl⟩ | ⟨-, hold⟩
    · exact .inr ⟨hnone, seq, rfl, rfl⟩
    · exact .inl ⟨e', hold, .refl ..⟩
  | reuse id₀ e₀ extra now he₀ =>
    exact .inl (hput he₀ he' ⟨fun _ h => .inl h, Finset.Subset.refl _, fun h => h, .inl rfl⟩)
  | attempt id₀ e₀ seq extra now _ he₀ _ hnew =>
    exact .inl (hput he₀ he' (.attempt _ id₀ hnew rfl rfl rfl))
  | retry id₀ e₀ seq now _ he₀ _ hnew =>
    exact .inl (hput he₀ he' (.attempt _ id₀ hnew rfl rfl rfl))
  | confirm id₀ e₀ he₀ hw =>
    have ht := (h.listed.confirm he₀ hw).trimLoop o
    rw [State.trimConfirmedLocked] at he'
    by_cases hdrop : id ∈ (s.confirm id₀ e₀).confirmedOrder.take
        ((s.confirm id₀ e₀).confirmedOrder.length - o.maxRecentConfirmed)
    · rw [ht.gone id hdrop] at he'
      cases he'
    · rw [ht.other id hdrop] at he'
      exact .inl (hput he₀ he' ⟨fun _ h => .inl h, Finset.Subset.refl _, fun _ => rfl, .inl rfl⟩)

theorem Change.not_confirmed (hc : Change o s (some (id, seq)) k s')
    (he : s.entries.lookup id = some e) : e.confirmed = false := by
  cases hc with
  | enroll _ _ _ _ _ hnone =>
    rw [hnone] at he
    cases he
  | reuse _ e₀ _ _ he₀ hw =>
    grind
  | attempt _ e₀ _ _ _ _ he₀ hw =>
    grind
  | retry _ e₀ _ _ _ he₀ hw =>
    rw [he₀] at he
    cases he
    exact hw

theorem after_sound (hmax : 1 ≤ o.maxAttemptSequences) (h : Sound o s) (calls : List Call) :
    Sound o (s.after o calls) := by
  induction calls generalizing s with
  | nil => exact h
  | cons c calls ih => exact ih (h.change hmax (call_change o s c))

theorem retained_keeps (hmax : 1 ≤ o.maxAttemptSequences) {P : Entry → Prop}
    (hP : ∀ r k e e', e.Next r k id e' → P e → P e') (h : Sound o s) (he : s.entries.lookup id = some e)
    (hPe : P e) (mid : List Call) :
    (∃ m, m <+: mid ∧ (s.after o m).entries.lookup id = none) ∨
      ∃ e', (s.after o mid).entries.lookup id = some e' ∧ P e' := by
  induction mid generalizing s e with
  | nil => exact .inr ⟨e, he, hPe⟩
  | cons c mid ih =>
    have hchange := call_change o s c
    cases he' : (s.call o c).2.entries.lookup id with
    | none => exact .inl ⟨[c], ⟨mid, rfl⟩, he'⟩
    | some e' =>
      have hPe' : P e' := by
        rcases hchange.entry h he' with ⟨e₀, he₀, hnext⟩ | ⟨hnone, -⟩
        · rw [he] at he₀
          cases he₀
          exact hP _ _ e e' hnext hPe
        · rw [he] at hnone
          cases hnone
      rcases ih (h.change hmax hchange) he' hPe' with ⟨m, hm, hnone⟩ | hend
      · exact .inl ⟨c :: m, List.cons_prefix_cons.2 ⟨rfl, hm⟩, hnone⟩
      · exact .inr hend

/-! ## Acknowledgements -/

theorem acknowledge_confirmed (h : (s.acknowledge o id seq).1 = .confirmed) :
    ∃ e, s.entries.lookup id = some e ∧ e.confirmed = false ∧ seq ∈ e.attemptSeqs := by
  unfold State.acknowledge at h
  split at h
  · cases h
  · split at h
    · split at h <;> cases h
    · next e he =>
      split at h
      · cases h
      · next hseq =>
        split at h
        · cases h
        · next hw => exact ⟨e, he, by simpa using hw, not_not.1 hseq⟩

theorem acknowledge_duplicate (h : (s.acknowledge o id seq).1 = .duplicate) :
    ∃ e, s.entries.lookup id = some e ∧ e.confirmed = true ∧ seq ∈ e.attemptSeqs := by
  unfold State.acknowledge at h
  split at h
  · cases h
  · split at h
    · split at h <;> cases h
    · next e he =>
      split at h
      · cases h
      · next hseq =>
        split at h
        · next hw => exact ⟨e, he, hw, not_not.1 hseq⟩
        · cases h

theorem seq_registered (hmax : 1 ≤ o.maxAttemptSequences) (calls : List Call) :
    ∀ id e, (run o calls).entries.lookup id = some e → ∀ seq ∈ e.attemptSeqs,
      ∃ pre c post, calls = pre ++ c :: post ∧
        registers c ((run o pre).call o c).1 = some (id, seq) ∧
        ∀ m, m <+: post → (run o (pre ++ c :: m)).entries.lookup id ≠ none := by
  induction calls using List.reverseRecOn with
  | nil =>
    intro id e he
    cases he
  | append_singleton calls c ih =>
    intro id e' he' seq hseq
    rw [run_append_singleton] at he'
    have hsound : Sound o (run o calls) := after_sound hmax (.start o) calls
    have hnow : registers c ((run o calls).call o c).1 = some (id, seq) →
        ∃ pre c' post, calls ++ [c] = pre ++ c' :: post ∧
          registers c' ((run o pre).call o c').1 = some (id, seq) ∧
          ∀ m, m <+: post → (run o (pre ++ c' :: m)).entries.lookup id ≠ none := by
      intro hr
      refine ⟨calls, c, [], rfl, hr, fun m hm => ?_⟩
      rw [List.prefix_nil.1 hm, run_append_singleton, he']
      exact Option.some_ne_none _
    rcases (call_change o (run o calls) c).entry hsound he' with ⟨e, he, hnext⟩ | ⟨-, seq', hr, hseqs⟩
    · rcases hnext.seqs seq hseq with hold | hr
      · obtain ⟨pre, c', post, rfl, hr, hkept⟩ := ih id e he seq hold
        refine ⟨pre, c', post ++ [c], by simp, hr, fun m hm => ?_⟩
        rcases List.prefix_concat_iff.1 hm with rfl | hm
        · have hlast : pre ++ c' :: (post ++ [c]) = (pre ++ c' :: post) ++ [c] := by simp
          rw [hlast, run_append_singleton, he']
          exact Option.some_ne_none _
        · exact hkept m hm
      · exact hnow hr
    · rw [hseqs, Finset.mem_singleton] at hseq
      subst hseq
      exact hnow hr

/-! ## The order of confirmations -/

def othersConfirmed (o : Options) (id : DeliveryIdentity) : State → List Call → ℕ
  | _, [] => 0
  | s, c :: calls =>
    (if ∃ id', confirms c (s.call o c).1 = some id' ∧ id' ≠ id then 1 else 0) +
      othersConfirmed o id (s.call o c).2 calls

def Behind (id : DeliveryIdentity) (n : ℕ) (s : State) : Prop :=
  ∃ older newer, s.confirmedOrder = older ++ id :: newer ∧ newer.length = n

theorem Behind.confirmed {n : ℕ} (h : Sound o s) (hb : Behind id n s) :
    ∃ e, s.entries.lookup id = some e ∧ e.confirmed = true := by
  obtain ⟨older, newer, horder, -⟩ := hb
  exact (h.listed.order id).1 (by rw [horder]; simp)

theorem Change.order (hc : Change o s r none s') : s'.confirmedOrder = s.confirmedOrder := by
  cases hc <;> rfl

theorem Change.order_confirm (h : Sound o s) (hc : Change o s r (some id') s') :
    s'.confirmedOrder = (s.confirmedOrder ++ [id']).drop
      ((s.confirmedOrder ++ [id']).length - o.maxRecentConfirmed) ∧
      ∃ e, s.entries.lookup id' = some e ∧ e.confirmed = false := by
  cases hc with
  | confirm _ e he hw => exact ⟨((h.listed.confirm he hw).trimLoop o).kept, e, he, hw⟩

theorem Behind.change {n : ℕ} (h : Sound o s) (hb : Behind id n s) (hc : Change o s r k s') :
    (k = none ∧ Behind id n s') ∨
      ∃ id', k = some id' ∧ id' ≠ id ∧ (o.maxRecentConfirmed ≤ n + 1 ∨ Behind id (n + 1) s') := by
  cases k with
  | none =>
    refine .inl ⟨rfl, ?_⟩
    unfold Behind
    rw [hc.order]
    exact hb
  | some id' =>
    obtain ⟨horder, e', he', hw'⟩ := hc.order_confirm h
    obtain ⟨e, he, hc'⟩ := hb.confirmed h
    have hne : id' ≠ id := by
      rintro rfl
      rw [he] at he'
      cases he'
      rw [hc'] at hw'
      cases hw'
    refine .inr ⟨id', rfl, hne, ?_⟩
    obtain ⟨older, newer, hold, rfl⟩ := hb
    have hlimit := h.limits.recentConfirmed
    rw [hold] at horder hlimit
    simp only [List.length_append, List.length_cons, List.length_nil] at horder hlimit
    cases older with
    | nil =>
      by_cases hfull : o.maxRecentConfirmed ≤ newer.length + 1
      · exact .inl hfull
      · refine .inr ⟨[], newer ++ [id'], ?_, by simp⟩
        rw [horder]
        grind
    | cons x older =>
      refine .inr ?_
      simp only [List.length_cons] at horder hlimit
      rcases Nat.eq_zero_or_pos
        (older.length + 1 + (newer.length + 1) + (0 + 1) - o.maxRecentConfirmed) with hzero | hpos
      · rw [hzero, List.drop_zero] at horder
        exact ⟨x :: older, newer ++ [id'], by rw [horder]; simp, by simp⟩
      · have hone : older.length + 1 + (newer.length + 1) + (0 + 1) - o.maxRecentConfirmed = 1 := by
          omega
        rw [hone] at horder
        exact ⟨older, newer ++ [id'], by rw [horder]; simp, by simp⟩

theorem Behind.after (hmax : 1 ≤ o.maxAttemptSequences) {n : ℕ} (h : Sound o s) (hb : Behind id n s)
    (mid : List Call) :
    o.maxRecentConfirmed ≤ n + othersConfirmed o id s mid ∨
      Behind id (n + othersConfirmed o id s mid) (s.after o mid) := by
  induction mid generalizing s n with
  | nil => exact .inr hb
  | cons c mid ih =>
    have hchange := call_change o s c
    have hnext := h.change hmax hchange
    rcases hb.change h hchange with ⟨hk, hb'⟩ | ⟨id', hk, hne, hfull | hb'⟩
    · have hcount : othersConfirmed o id s (c :: mid) = othersConfirmed o id (s.call o c).2 mid := by
        simp [othersConfirmed, hk]
      rw [hcount]
      exact ih hnext hb'
    · have hcount : othersConfirmed o id s (c :: mid) = 1 + othersConfirmed o id (s.call o c).2 mid := by
        simp [othersConfirmed, hk, hne]
      rw [hcount]
      exact .inl (by omega)
    · have hcount : othersConfirmed o id s (c :: mid) = 1 + othersConfirmed o id (s.call o c).2 mid := by
        simp [othersConfirmed, hk, hne]
      rw [hcount, ← Nat.add_assoc]
      exact ih hnext hb'

theorem Change.behind (hone : 1 ≤ o.maxRecentConfirmed) (h : Sound o s)
    (hc : Change o s r (some id) s') : Behind id 0 s' := by
  obtain ⟨horder, -⟩ := hc.order_confirm h
  have hle : (s.confirmedOrder ++ [id]).length - o.maxRecentConfirmed ≤ s.confirmedOrder.length := by
    rw [List.length_append, List.length_singleton]
    omega
  rw [List.drop_append_of_le_length hle] at horder
  exact ⟨_, [], horder, rfl⟩

/-! ## Retries -/

theorem registerRetryAttempt_registered {expected new maxAttempts : UInt32} {now : ℤ}
    (h : (s.registerRetryAttempt o id expected new maxAttempts now).1 = .retryRegistered) :
    ∃ e, s.entries.lookup id = some e ∧ e.currentDeliverySeq = expected ∧ new ∉ e.attemptSeqs ∧
      (s.registerRetryAttempt o id expected new maxAttempts now).2.entries.lookup id =
        some { e.attempt new with lastAttemptAt := now } := by
  unfold State.registerRetryAttempt at h ⊢
  split at h
  · cases h
  · next hok =>
    rw [if_neg hok]
    split at h
    · grind
    · next e he =>
      split at h
      · cases h
      · next hw =>
        split at h
        · cases h
        · next hcurrent =>
          split at h
          · cases h
          · next hlimit =>
            split at h
            · cases h
            · next hnew =>
              refine ⟨e, he, not_not.1 hcurrent, hnew, ?_⟩
              rw [if_neg hw, if_neg hcurrent, if_neg hlimit, if_neg hnew]
              exact AList.lookup_insert _

/-! ## Whole runs -/

theorem confirms_acknowledge (h : (s.acknowledge o id seq).1 = .confirmed) :
    confirms (.acknowledge id seq) (s.call o (.acknowledge id seq)).1 = some id := by
  simp [State.call, confirms, h]

/-- An acknowledgement is taken only for an attempt that was registered while the entry was retained;
between two trims an identity is confirmed once; a private message is confirmed for one retained
receiver; a confirmed identity registers no attempt until `maxRecentConfirmed` others were confirmed;
and while the entry is retained a sequence is retried once. -/
theorem receiver_ack_safety (o : Options) (calls : List Call) :
    (∀ id seq, (((run o.clamp calls).acknowledge o.clamp id seq).1 = .confirmed ∨
        ((run o.clamp calls).acknowledge o.clamp id seq).1 = .duplicate) →
      ∃ pre c post, calls = pre ++ c :: post ∧
        registers c ((run o.clamp pre).call o.clamp c).1 = some (id, seq) ∧
        ∀ m, m <+: post → (run o.clamp (pre ++ c :: m)).entries.lookup id ≠ none) ∧
    (∀ id seq seq' s₁ mid,
      (run o.clamp calls).acknowledge o.clamp id seq = (.confirmed, s₁) →
      ((s₁.after o.clamp mid).acknowledge o.clamp id seq').1 = .confirmed →
      ∃ m, m <+: mid ∧ (s₁.after o.clamp m).entries.lookup id = none) ∧
    (∀ m u u' seq,
      ((run o.clamp calls).acknowledge o.clamp ⟨.privateMessage, m, u⟩ seq).1 = .confirmed →
      (run o.clamp calls).entries.lookup ⟨.privateMessage, m, u'⟩ ≠ none → u' = u) ∧
    (∀ id seq s₁ mid c seq',
      (run o.clamp calls).acknowledge o.clamp id seq = (.confirmed, s₁) →
      registers c ((s₁.after o.clamp mid).call o.clamp c).1 = some (id, seq') →
      o.clamp.maxRecentConfirmed ≤ othersConfirmed o.clamp id s₁ mid) ∧
    ∀ id expected new new' maxAttempts maxAttempts' now now' s₁ mid,
      (run o.clamp calls).registerRetryAttempt o.clamp id expected new maxAttempts now =
        (.retryRegistered, s₁) →
      ((s₁.after o.clamp mid).registerRetryAttempt o.clamp id expected new' maxAttempts' now').1 =
        .retryRegistered →
      ∃ m, m <+: mid ∧ (s₁.after o.clamp m).entries.lookup id = none := by
  have hmax := one_le_maxAttemptSequences o
  have h : Sound o.clamp (run o.clamp calls) := run_sound o calls
  -- the state after a confirmation, with the identity last in the order
  have hack : ∀ id seq s₁, (run o.clamp calls).acknowledge o.clamp id seq = (.confirmed, s₁) →
      Sound o.clamp s₁ ∧ Behind id 0 s₁ := by
    intro id seq s₁ hack
    have hchange := call_change o.clamp (run o.clamp calls) (.acknowledge id seq)
    rw [confirms_acknowledge (by rw [hack])] at hchange
    have hs₁ : ((run o.clamp calls).call o.clamp (.acknowledge id seq)).2 = s₁ := by
      simp [State.call, hack]
    rw [hs₁] at hchange
    exact ⟨h.change hmax hchange, hchange.behind (le_max_right _ 1) h⟩
  refine ⟨?_, ?_, ?_, ?_, ?_⟩
  · intro id seq hstatus
    have hentry : ∃ e, (run o.clamp calls).entries.lookup id = some e ∧ seq ∈ e.attemptSeqs := by
      rcases hstatus with hstatus | hstatus
      · obtain ⟨e, he, -, hseq⟩ := acknowledge_confirmed hstatus
        exact ⟨e, he, hseq⟩
      · obtain ⟨e, he, -, hseq⟩ := acknowledge_duplicate hstatus
        exact ⟨e, he, hseq⟩
    obtain ⟨e, he, hseq⟩ := hentry
    exact seq_registered hmax calls id e he seq hseq
  · intro id seq seq' s₁ mid hfirst hsecond
    obtain ⟨hs₁, hb⟩ := hack id seq s₁ hfirst
    obtain ⟨e, he, hconfirmed⟩ := hb.confirmed hs₁
    rcases retained_keeps hmax (P := fun e => e.confirmed = true)
      (fun _ _ _ _ hnext hc => hnext.confirmed hc) hs₁ he hconfirmed mid with hgone | ⟨e', he', hc'⟩
    · exact hgone
    · obtain ⟨e₂, he₂, hw₂, -⟩ := acknowledge_confirmed hsecond
      rw [he'] at he₂
      cases he₂
      rw [hc'] at hw₂
      cases hw₂
  · intro m u u' seq hconfirmed hother
    obtain ⟨e, he, -⟩ := acknowledge_confirmed hconfirmed
    obtain ⟨e', he'⟩ := Option.ne_none_iff_exists'.1 hother
    have hu := (h.listed.receivers m u).2 ⟨e, he⟩
    have hu' := (h.listed.receivers m u').2 ⟨e', he'⟩
    rw [hu] at hu'
    exact (Option.some.inj hu').symm
  · intro id seq s₁ mid c seq' hfirst hreg
    obtain ⟨hs₁, hb⟩ := hack id seq s₁ hfirst
    rcases hb.after hmax hs₁ mid with hfull | hb'
    · omega
    · obtain ⟨e, he, hconfirmed⟩ := hb'.confirmed (after_sound hmax hs₁ mid)
      have hchange := call_change o.clamp (s₁.after o.clamp mid) c
      rw [hreg] at hchange
      have := hchange.not_confirmed he
      rw [hconfirmed] at this
      cases this
  · intro id expected new new' maxAttempts maxAttempts' now now' s₁ mid hfirst hsecond
    obtain ⟨e, he, hcurrent, hnew, he₁⟩ := registerRetryAttempt_registered (by rw [hfirst])
    rw [hfirst] at he₁
    have hs₁ : Sound o.clamp s₁ := by
      have hchange := call_change o.clamp (run o.clamp calls)
        (.registerRetryAttempt id expected new maxAttempts now)
      have hnext := h.change hmax hchange
      simpa [State.call, hfirst] using hnext
    have hmem : expected ∈ e.attemptSeqs := hcurrent ▸ (h.fine id e he).current
    have hstart : expected ∈ (e.attempt new).attemptSeqs ∧ (e.attempt new).currentDeliverySeq ≠ expected :=
      ⟨Finset.mem_insert_of_mem hmem, fun heq => hnew ((show new = expected from heq) ▸ hmem)⟩
    have hkeep : ∀ (r : Option (DeliveryIdentity × UInt32)) (k : Option DeliveryIdentity) (e e' : Entry),
        e.Next r k id e' → expected ∈ e.attemptSeqs ∧ e.currentDeliverySeq ≠ expected →
        expected ∈ e'.attemptSeqs ∧ e'.currentDeliverySeq ≠ expected := by
      intro r k e e' hnext hP
      refine ⟨hnext.kept hP.1, ?_⟩
      rcases hnext.current with heq | hfresh
      · rw [heq]
        exact hP.2
      · exact fun heq => hfresh (heq ▸ hP.1)
    rcases retained_keeps hmax hkeep hs₁ he₁ hstart mid with hgone | ⟨e', he', -, hne⟩
    · exact hgone
    · obtain ⟨e₂, he₂, hcurrent₂, -⟩ := registerRetryAttempt_registered hsecond
      rw [he'] at he₂
      cases he₂
      exact absurd hcurrent₂ hne

/-! ## A sequence that comes back -/

def sampleOptions : Options := ⟨1, 8, 8, 1000, 1000, 8, 0, 0⟩

def sampleIdentity (recipient : ℕ) : DeliveryIdentity := ⟨.groupMessage, 9, recipient⟩

/-- The attempt 7 to recipient 1 times out and is retried as 8, which is confirmed; the confirmation
for recipient 2 trims the entry, and the attempt 7 is registered again. -/
def sampleCalls : List Call :=
  [.registerAttempt (sampleIdentity 1) 7 10 0, .registerRetryAttempt (sampleIdentity 1) 7 8 5 1,
    .acknowledge (sampleIdentity 1) 8, .registerAttempt (sampleIdentity 2) 3 10 2,
    .acknowledge (sampleIdentity 2) 3, .registerAttempt (sampleIdentity 1) 7 10 3]

theorem retry_registered_twice :
    ((run sampleOptions.clamp (sampleCalls.take 1)).registerRetryAttempt sampleOptions.clamp
        (sampleIdentity 1) 7 8 5 1).1 = .retryRegistered ∧
      ((run sampleOptions.clamp sampleCalls).registerRetryAttempt sampleOptions.clamp
        (sampleIdentity 1) 7 8 5 4).1 = .retryRegistered := by
  decide +kernel

end TinyImx.Gateway.DeliveryTracker
