import TinyImx.Local.System

/-!
# What every stored message satisfies

A property of a message that its delivery state and times do not touch holds of every stored
message, in every state of a run and on every map a crash may leave, as soon as it holds of the
messages the run persists.  Two such properties: the content has at most 65535 bytes, and the user
ids are numbers of 64 bits.
-/

namespace TinyImx.Local

open Kv Act

def Contents (φ : MessageView → Prop) (db : Db) : Prop := ∀ mid m, db.lookup (.M mid) = some m → φ m

def Stable (φ : MessageView → Prop) : Prop := ∀ m m', SameMessage m m' → φ m → φ m'

def Lasts (φ : MessageView → Prop) : Prop :=
  ∀ m m', SameMessage m m' → m'.deliveryState ≠ .pending → φ m → φ m'

theorem Stable.lasts {φ : MessageView → Prop} (h : Stable φ) : Lasts φ :=
  fun m m' hsame _ => h m m' hsame

def Carries (φ : MessageView → Prop) : Write → Prop
  | .put (.M _) m => φ m
  | _ => True

variable {opts : Options} {env : Env} {s s' : Store} {φ : MessageView → Prop} {batch : List Write}

theorem Contents.apply {db : Db} (h : Contents φ db) (hb : ∀ w ∈ batch, Carries φ w) :
    Contents φ (apply db batch) := by
  induction batch generalizing db with
  | nil => exact h
  | cons w batch ih =>
    refine ih (fun mid m hm => ?_) fun w' hw' => hb w' (List.mem_cons_of_mem _ hw')
    have hw := hb w List.mem_cons_self
    by_cases hk : Key.M mid = w.key
    · cases w with
      | put k v =>
        obtain rfl : k = Key.M mid := hk.symm
        rw [lookup_step_put] at hm
        cases hm
        exact hw
      | delete k =>
        obtain rfl : k = Key.M mid := hk.symm
        rw [lookup_step_delete] at hm
        cases hm
    · rw [lookup_step_of_ne hk] at hm
      exact h mid m hm

def Lasting (φ : MessageView → Prop) (s : Store) : Prop := Wal.Durable (Contents φ) s.log

theorem Lasting.contents (h : Lasting φ s) (hinv : Inv s) : Contents φ s.db := hinv.live.durable h

/-! ## Persisting -/

theorem Lasting.frame (h : Lasting φ s) (hs : SameData s s') : Lasting φ s' := by
  rw [Lasting, hs.log]
  exact h

section

variable {α : Type} {x : StoreM α} {Adm : Failure → Prop}

theorem Lasting.ends (h : Lasting φ s)
    (hx : Ends x s (fun _ s' => SameData s s') fun e s' => SameData s s' ∧ Adm e) :
    Ends x s (fun _ s' => Lasting φ s') fun _ s' => Lasting φ s' :=
  hx.mono (fun _ _ hs => h.frame hs) fun _ _ hs => h.frame hs.1

theorem Lasting.onThrow {f : Store → Store} {Q : α → Store → Prop} (hf : ∀ u, SameData u (f u))
    (hx : Ends x s Q fun _ s' => Lasting φ s') :
    Ends (Act.onThrow x f) s Q fun _ s' => Lasting φ s' :=
  Ends.onThrow (hx.mono (fun _ _ hq => hq) fun _ u hu => hu.frame (hf u))

end

theorem Lasting.write (h : Lasting φ s) (hb : ∀ w ∈ batch, Carries φ w) (sync : Bool) :
    Ends (Local.write env batch sync) s (fun _ s' => Lasting φ s') fun _ s' => Lasting φ s' := by
  have happend : ∀ sync, Wal.Durable (Contents φ) (s.log ++ [⟨batch, sync⟩]) :=
    fun sync => Wal.Durable.snoc h (h.live.apply hb)
  unfold Ends Local.write
  by_cases hp : s.poisoned = true
  · rw [if_pos hp]
    exact h
  · rw [if_neg hp]
    cases env.engine s.engineWriteCalls with
    | done => exact happend sync
    | failed logged text =>
      cases logged with
      | false => exact h
      | true => exact happend false

theorem Lasting.nextMessageId (h : Lasting φ s) :
    Ends (Local.nextMessageId env) s (fun _ s' => Lasting φ s') fun _ s' => Lasting φ s' := by
  refine Ends.read_bind ?_
  split
  · refine check_bind (fun _ _ => h) fun _ _ => ?_
    refine Ends.bind (h.write (by simp [Carries]) true) fun _ t ht => ?_
    exact Ends.modify_bind (Ends.modify_bind (Ends.pure ht))
  · exact Ends.modify_bind (Ends.pure h)

/-- What a run persists has `φ`, whatever the clock and the message id. -/
def Feeds (φ : MessageView → Prop) (inp : PersistInput) : Prop :=
  inp.content.length ≤ 65535 → ∀ clock mid, φ (newRecord clock inp mid)

theorem carries_messageWrites {m : MessageView} (hm : φ m) (canonical : Bytes)
    (total dialog pending : ℕ) (row : PendingLocalEvent) :
    ∀ w ∈ messageWrites m canonical total dialog pending ++ eventWrites row, Carries φ w := by
  simp [messageWrites, eventWrites, Carries, hm]

theorem checkBody_length {content : Bytes} {u : Unit} (h : checkBody env content = .ok u) :
    content.length ≤ 65535 := by
  obtain ⟨_, hlen, -⟩ := bind_eq_ok.1 h
  simpa [require_eq_ok] using hlen

variable {inp : PersistInput} {canonical : Bytes} {item : ℕ}

theorem Lasting.createMessage (h : Lasting φ s) (hφ : Feeds φ inp) :
    Ends (Local.createMessage opts env item inp canonical) s (fun _ s' => Lasting φ s')
      fun _ s' => Lasting φ s' := by
  refine check_bind (fun _ _ => h) fun _ hbody => ?_
  have hφ := hφ (checkBody_length hbody)
  refine check_bind (fun _ _ => h) fun _ _ => ?_
  refine Ends.bind (h.ends (@reserve_ends env opts _)) fun _ t₁ h₁ => ?_
  refine Lasting.onThrow sameData_release ?_
  refine check_bind (fun _ _ => h₁) fun _ _ => ?_
  refine Ends.bind h₁.nextMessageId fun mid t₂ h₂ => ?_
  refine Ends.read_bind ?_
  refine check_bind (fun _ _ => h₂) fun _ _ => ?_
  refine check_bind (fun _ _ => h₂) fun _ _ => ?_
  refine check_bind (fun _ _ => h₂) fun row _ => ?_
  refine Ends.bind (h₂.ends (@prepare_ends env _ _)) fun _ t₃ h₃ => ?_
  have hw := carries_messageWrites (hφ env.clock mid) canonical (totalCount t₂.db inp.toUserId)
    (dialogCount t₂.db inp.toUserId inp.fromUserId) (pendingCount t₂.db inp.toUserId) row
  refine Ends.bind (Lasting.onThrow (sameData_unprepare _) (h₃.write hw true)) fun _ t₄ h₄ => ?_
  exact Ends.modify_bind (Ends.pure (h₄.frame (sameData_commit _ _)))

theorem Lasting.persist (h : Lasting φ s) (hφ : Feeds φ inp) :
    Lasting φ (persistPrivateMessage opts env item inp s).2 := by
  have hbody : Ends (persistBody opts env item inp) s (fun _ s' => Lasting φ s')
      fun _ s' => Lasting φ s' := by
    refine check_bind (fun _ _ => h) fun canonical _ => ?_
    refine Ends.bind (h.ends (@lockUsers_ends env opts _ _)) fun _ t ht => ?_
    refine Ends.inspect_bind (fun _ _ => ht) fun existing _ => ?_
    cases existing with
    | some m => exact Ends.pure ht
    | none => exact ht.createMessage hφ
  rcases call_ends id PersistResult.ofFailure (E := fun _ s' => Lasting φ s') (fun _ _ => h)
    fun _ => hbody with ⟨_, -, h'⟩ | ⟨_, -, h'⟩
  · exact h'
  · exact h'

/-! ## Groups -/

def StagedCarries (φ : MessageView → Prop) (b : Batch) : Prop :=
  ∀ c ∈ b.creates, ∀ w ∈ c.writes, Carries φ w

variable {b : Batch}

theorem Lasting.stageMessage (opts : Options) (env : Env) (canonical : Bytes) (h : Lasting φ s)
    (hb : StagedCarries φ b) (hφ : Feeds φ inp) :
    Ends (Local.stageMessage opts env b inp canonical) s
      (fun b' s' => StagedCarries φ b' ∧ Lasting φ s') fun _ s' => Lasting φ s' := by
  refine check_bind (fun _ _ => h) fun _ hbody => ?_
  have hφ := hφ (checkBody_length hbody)
  refine check_bind (fun _ _ => h) fun _ _ => ?_
  refine Ends.bind (h.ends (@reserve_ends env opts _)) fun _ t₁ h₁ => ?_
  refine Lasting.onThrow sameData_release ?_
  refine check_bind (fun _ _ => h₁) fun _ _ => ?_
  refine Ends.bind h₁.nextMessageId fun mid t₂ h₂ => ?_
  refine Ends.read_bind ?_
  refine check_bind (fun _ _ => h₂) fun _ _ => ?_
  refine check_bind (fun _ _ => h₂) fun row _ => ?_
  refine check_bind (fun _ _ => h₂) fun _ _ => ?_
  refine Ends.bind (h₂.ends (@prepare_ends env _ _)) fun _ t₃ h₃ => ?_
  refine Ends.pure ⟨fun c hc => ?_, h₃⟩
  simp only [Batch.stage, List.mem_append, List.mem_singleton] at hc
  rcases hc with hc | rfl
  · exact hb c hc
  · exact carries_messageWrites (hφ env.clock mid) _ _ _ _ _

theorem Lasting.stageItem (opts : Options) (env : Env) (h : Lasting φ s) (hb : StagedCarries φ b)
    (hφ : Feeds φ inp) (checked : Except Failure Bytes) :
    StagedCarries φ (Local.stageItem opts env inp checked b s).1 ∧
      Lasting φ (Local.stageItem opts env inp checked b s).2 := by
  unfold Local.stageItem
  cases checked with
  | error e => exact ⟨hb, h⟩
  | ok canonical =>
    dsimp only
    split
    · exact ⟨hb, h⟩
    · split
      · exact ⟨hb, h⟩
      · exact ⟨hb, h⟩
      · have hends := stageMessage opts env canonical h hb hφ
        unfold Ends at hends
        split at hends
        · next hrun => rw [hrun]; exact hends
        · next hrun => rw [hrun]; exact ⟨hb, hends⟩

theorem Lasting.stageItems (opts : Options) (env : Env)
    (items : List (PersistInput × Except Failure Bytes)) (h : Lasting φ s)
    (hb : StagedCarries φ b) (hφ : ∀ x ∈ items, Feeds φ x.1) :
    StagedCarries φ (Local.stageItems opts env items b s).1 ∧
      Lasting φ (Local.stageItems opts env items b s).2 := by
  induction items generalizing b s with
  | nil => exact ⟨hb, h⟩
  | cons x items ih =>
    obtain ⟨hb', h'⟩ := stageItem opts env h hb (hφ x List.mem_cons_self) x.2
    exact ih h' hb' fun y hy => hφ y (List.mem_cons_of_mem _ hy)

theorem Lasting.commitBatch (h : Lasting φ s) (hb : StagedCarries φ b) :
    Lasting φ (Local.commitBatch opts env b s).2 := by
  unfold Local.commitBatch
  have hwrites : ∀ w ∈ b.creates.flatMap Create.writes, Carries φ w := by
    intro w hw
    obtain ⟨c, hc, hw⟩ := List.mem_flatMap.1 hw
    exact hb c hc w hw
  have hends : Ends (Local.write env (b.creates.flatMap Create.writes) true) s
      (fun _ s' => Lasting φ s') fun _ s' => Lasting φ s' := h.write hwrites true
  split
  · exact h
  · split
    · next hrun =>
      exact (hends.of_ok hrun).frame
        (sameData_foldl (fun s (c : Create) => sameData_commit c.eventId s) _ _)
    · next hrun =>
      exact (hends.of_error hrun).frame (sameData_foldl (fun s (c : Create) =>
        (sameData_unprepare c.eventId s).trans (sameData_release _)) _ _)

theorem Lasting.persistEach (inputs : List PersistInput) (i : ℕ) (h : Lasting φ s)
    (hφ : ∀ inp ∈ inputs, Feeds φ inp) : Lasting φ (Local.persistEach opts env i inputs s).2 := by
  induction inputs generalizing i s with
  | nil => exact h
  | cons inp inputs ih =>
    exact ih _ (h.persist (hφ inp List.mem_cons_self)) fun x hx => hφ x (List.mem_cons_of_mem _ hx)

theorem Lasting.persistMany {inputs : List PersistInput} (h : Lasting φ s)
    (hφ : ∀ inp ∈ inputs, Feeds φ inp) :
    Lasting φ (persistPrivateMessages opts env inputs s).2 := by
  have hchecked : ∀ x ∈ checkInputs opts env inputs, Feeds φ x.1 := by
    intro x hx
    obtain ⟨i, hi, rfl⟩ := List.mem_mapIdx.1 hx
    exact hφ _ (List.getElem_mem hi)
  unfold persistPrivateMessages
  split
  · exact h
  split
  · exact h
  split
  · exact h.persistEach inputs 0 hφ
  unfold persistBatch
  split
  · exact h
  · dsimp only
    have hlock := h.ends (@lockUsers_ends env opts _ (batchActors (checkInputs opts env inputs)))
    split
    · next hrun => exact hlock.of_error hrun
    · next hrun =>
      obtain ⟨hb, h'⟩ := Lasting.stageItems opts env (b := {}) _ (hlock.of_ok hrun)
        (by simp [StagedCarries]) hchecked
      exact h'.commitBatch hb

/-! ## The other calls -/

theorem Contents.advances (hφ : Lasts φ) {f : MessageView → MessageView} {db db' : Db}
    {ms : List MessageView} (ha : Advances f db ms db') (h : Contents φ db) : Contents φ db' := by
  induction ha with
  | nil => exact h
  | @cons db₀ db₁ db₂ m ms hstep _ ih =>
    refine ih fun mid n hn => ?_
    by_cases hmid : mid = m.messageId
    · subst hmid
      rw [hstep.record] at hn
      cases hn
      exact hφ m _ hstep.same hstep.left (h _ _ hstep.stored)
    · rw [hstep.other _ (by simpa using hmid) (by simp)] at hn
      exact h mid n hn

theorem Contents.change (hφ : Lasts φ) {c : Change} (hinv : Inv s) (hc : c.Fits s)
    (hcreate : ∀ ns, c ≠ .create ns) (h : Contents φ s.db) :
    Contents φ (Kv.apply s.db (c.batch s.db)) := by
  have hrows := hinv.sound.toRows
  cases c with
  | reserve n => exact h.apply (by simp [Change.batch, Carries])
  | create ns => exact absurd rfl (hcreate ns)
  | confirm ms now =>
    intro mid m hm
    rw [Change.batch, apply_append, lookup_confirmCounters (by simp)] at hm
    exact Contents.advances hφ (Confirmable.advances hc hrows now) h mid m hm
  | read reader peer ms now row =>
    intro mid m hm
    rw [Change.batch, Readable.lookup_readBatch rfl rfl] at hm
    exact Contents.advances hφ (Readable.advances hc hrows now) h mid m hm
  | publish ids =>
    intro mid m hm
    rw [Change.lookup_of_not_isEvent (c := .publish ids) trivial rfl] at hm
    exact h mid m hm
  | fail id failed =>
    intro mid m hm
    rw [Change.lookup_of_not_isEvent (c := .fail id failed) trivial rfl] at hm
    exact h mid m hm
  | requeue rows =>
    intro mid m hm
    rw [Change.lookup_of_not_isEvent (c := .requeue rows) trivial rfl] at hm
    exact h mid m hm

def Op.Feeds (φ : MessageView → Prop) : Op → Prop
  | persist inp => Local.Feeds φ inp
  | persistMany inputs => ∀ inp ∈ inputs, Local.Feeds φ inp
  | _ => True

def Label.Feeds (φ : MessageView → Prop) : Label → Prop
  | call _ op => op.Feeds φ
  | crash => True

theorem Lasting.run {op : Op} (hφ : Lasts φ) (hinv : Inv s) (h : Lasting φ s)
    (hfeeds : op.Feeds φ) : Lasting φ (op.run opts env s) := by
  have hmoves := op.run_moves opts env hinv
  have hother : ∀ {K : Change → Prop}, Moves K s (op.run opts env s) →
      (∀ ns, ¬K (.create ns)) → Lasting φ (op.run opts env s) := fun hm hK =>
    hm.durable (fun t c ht hc hfits => Contents.change hφ ht hfits fun ns hns => hK ns (hns ▸ hc))
      hinv h
  cases op with
  | persist inp => exact h.persist hfeeds
  | persistMany inputs => exact h.persistMany hfeeds
  | _ => exact hother hmoves fun ns hK => hK

/-! ## Runs -/

theorem Lasting.opened {db : Db} {log : List LogEntry} (hlog : Contents φ (Wal.replay log))
    (h : openStore opts db log = .ok s) : Lasting φ s := by
  obtain ⟨-, -, -, -, hold, hnew⟩ := openStore_opened h
  cases hhigh : db.lookup .high with
  | none =>
    rw [Lasting, (hnew hhigh).2]
    refine .synced ?_
    rw [Wal.replay_snoc]
    exact hlog.apply (by simp [Carries])
  | some e =>
    have he : db.lookup .high = some ((db.lookup .high).getD (opts.firstMessageId - 1)) := by
      rw [hhigh]
      rfl
    rw [Lasting, (hold he).2]
    exact .synced hlog

theorem Lasting.step {l : Label} (hφ : Lasts φ) (hinv : Inv s) (h : Lasting φ s)
    (hfeeds : l.Feeds φ) (hs : SystemStep opts s l s') : Lasting φ s' := by
  cases hs with
  | call env op => exact h.run hφ hinv hfeeds
  | crash hkept hopen => exact .opened (h _ hkept) hopen

/-- The store was reached by a run that persists messages with `φ` only. -/
def ReachableWith (φ : MessageView → Prop) (opts : Options) (s : Store) : Prop :=
  ∃ s₀ ls, openStore opts ∅ [] = .ok s₀ ∧ Run (SystemStep opts) s₀ ls s ∧ ∀ l ∈ ls, l.Feeds φ

theorem ReachableWith.reachable (h : ReachableWith φ opts s) : Reachable opts s := by
  obtain ⟨s₀, ls, hopen, hrun, -⟩ := h
  exact ⟨s₀, ls, hopen, hrun⟩

theorem ReachableWith.contents (h : ReachableWith φ opts s) (hφ : Lasts φ) : Contents φ s.db := by
  obtain ⟨s₀, ls, hopen, hrun, hfeeds⟩ := h
  have hempty : Contents φ (Wal.replay ([] : List LogEntry)) := fun mid m hm => by cases hm
  have hstep : ∀ s l s', Inv s ∧ Lasting φ s → l.Feeds φ → SystemStep opts s l s' →
      Inv s' ∧ Lasting φ s' :=
    fun s l s' hI hl hs => ⟨hI.1.step hs, hI.2.step hφ hI.1 hl hs⟩
  have h := hrun.invariant_of_forall hstep hfeeds ⟨Inv.first hopen, .opened hempty hopen⟩
  exact h.2.contents h.1

def ContentFits (m : MessageView) : Prop := m.content.length ≤ 65535

def UsersFit (m : MessageView) : Prop := m.fromUserId < 2 ^ 64 ∧ m.toUserId < 2 ^ 64

theorem contentFits_stable : Stable ContentFits := fun m m' h hm => by
  rw [ContentFits, h]
  exact hm

theorem usersFit_stable : Stable UsersFit := fun m m' h hm => by
  rw [UsersFit, h]
  exact hm

theorem Reachable.withContent (h : Reachable opts s) : ReachableWith ContentFits opts s := by
  obtain ⟨s₀, ls, hopen, hrun⟩ := h
  refine ⟨s₀, ls, hopen, hrun, fun l _ => ?_⟩
  cases l with
  | crash => trivial
  | call env op =>
    cases op with
    | persist inp => exact fun hlen _ _ => hlen
    | persistMany inputs => exact fun inp _ hlen _ _ => hlen
    | _ => trivial

def Untouched (m : MessageView) : Prop :=
  m.deliveryState = .pending → m.receiverConfirmedAt = [] ∧ m.readAt = []

theorem untouched_lasts : Lasts Untouched := fun _ _ _ hleft _ hpending => absurd hpending hleft

theorem Reachable.withUntouched (h : Reachable opts s) : ReachableWith Untouched opts s := by
  obtain ⟨s₀, ls, hopen, hrun⟩ := h
  refine ⟨s₀, ls, hopen, hrun, fun l _ => ?_⟩
  cases l with
  | crash => trivial
  | call env op =>
    cases op with
    | persist inp => exact fun _ _ _ _ => ⟨rfl, rfl⟩
    | persistMany inputs => exact fun inp _ _ _ _ _ => ⟨rfl, rfl⟩
    | _ => trivial

end TinyImx.Local
