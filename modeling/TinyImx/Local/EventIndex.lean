import TinyImx.Local.System

/-!
# The pending-event budget and its index

A call that fails leaves the map, the count of pending events and the index as they were: every
slot it reserved and every entry it prepared is given back.  A call that writes moves the map, the
count and the index together.  So between calls the index holds exactly the stored events, all ready,
and the count covers them.
-/

namespace TinyImx.Local

open Kv Act

variable {opts : Options} {env : Env} {s s' t u : Store}

/-! ## What a failed call leaves -/

structure SameEvents (s s' : Store) : Prop where
  count : s'.pendingEvents = s.pendingEvents
  enabled : s'.pendingIndexEnabled = s.pendingIndexEnabled
  index : ∀ id, s'.pendingIndex.lookup id = s.pendingIndex.lookup id

/-- The same map except for `meta/high`, the same count and the same index. -/
structure Quiet (s s' : Store) : Prop extends SameEvents s s' where
  map : SameMap s.db s'.db

theorem SameEvents.refl (s : Store) : SameEvents s s := ⟨rfl, rfl, fun _ => rfl⟩

theorem SameEvents.trans (h : SameEvents s t) (h' : SameEvents t u) : SameEvents s u :=
  ⟨h'.count.trans h.count, h'.enabled.trans h.enabled, fun id => (h'.index id).trans (h.index id)⟩

theorem Quiet.refl (s : Store) : Quiet s s := ⟨.refl s, .refl _⟩

theorem Quiet.trans (h : Quiet s t) (h' : Quiet t u) : Quiet s u :=
  ⟨h.toSameEvents.trans h'.toSameEvents, h.map.trans h'.map⟩

theorem Quiet.stored (h : Quiet s s') (id : Bytes) :
    s'.db.lookup (.E id) = s.db.lookup (.E id) := h.map _ (by simp)

def Silent {α : Type} (x : StoreM α) (s : Store) : Prop :=
  Ends x s (fun _ s' => Quiet s s') fun _ s' => Quiet s s'

theorem silent_registerLock (a : ℕ) : Silent (registerLock a) s := by
  refine check_bind (fun _ _ => .refl s) fun _ _ => Ends.read_bind ?_
  split
  · exact Ends.pure (.refl s)
  · refine check_bind (fun _ _ => .refl s) fun _ _ => ?_
    exact Ends.modify ⟨⟨rfl, rfl, fun _ => rfl⟩, .refl _⟩

theorem silent_lockActors (actors : List ℕ) : Silent (lockActors actors) s := by
  induction actors generalizing s with
  | nil => exact Ends.pure (.refl s)
  | cons a actors ih =>
    refine Ends.bind (silent_registerLock a) fun _ t ht => ?_
    exact ih.mono (fun _ _ hu => ht.trans hu) fun _ _ hu => ht.trans hu

theorem silent_lockUsers (actors : List ℕ) : Silent (lockUsers opts actors) s := by
  unfold lockUsers
  split
  · exact silent_lockActors _
  · exact Ends.pure (.refl s)

theorem write_quiet (env : Env) (s : Store) (batch : List Write) (sync : Bool) :
    Ends (write env batch sync) s
      (fun _ s' => SameEvents s s' ∧ s'.db = apply s.db batch) fun _ s' => Quiet s s' := by
  unfold Ends write
  by_cases hp : s.poisoned = true
  · rw [if_pos hp]
    exact .refl s
  · rw [if_neg hp]
    cases env.engine s.engineWriteCalls with
    | done => exact ⟨⟨rfl, rfl, fun _ => rfl⟩, rfl⟩
    | failed logged text => exact ⟨⟨rfl, rfl, fun _ => rfl⟩, .refl _⟩

theorem silent_nextMessageId : Silent (nextMessageId env) s := by
  refine Ends.read_bind ?_
  split
  · refine check_bind (fun _ _ => .refl s) fun _ _ => ?_
    refine Ends.bind (write_quiet env s _ true) fun _ t ht => ?_
    refine Ends.modify_bind (Ends.modify_bind (Ends.pure ⟨⟨ht.1.count, ht.1.enabled, ht.1.index⟩, ?_⟩))
    intro k hk
    have hdb : t.db = apply s.db [.put .high (s.reservedEnd + 4096)] := ht.2
    show t.db.lookup k = s.db.lookup k
    rw [hdb]
    exact AList.lookup_insert_ne hk
  · exact Ends.modify_bind (Ends.pure ⟨⟨rfl, rfl, fun _ => rfl⟩, .refl _⟩)

/-! ## Slots in flight -/

/-- Since `s₀` the call has reserved `n` slots and prepared the entries `ids`, and written nothing. -/
structure Holding (n : ℕ) (ids : List Bytes) (s₀ s : Store) : Prop where
  count : s.pendingEvents = s₀.pendingEvents + n
  enabled : s.pendingIndexEnabled = s₀.pendingIndexEnabled
  map : SameMap s₀.db s.db
  nodup : s₀.pendingIndexEnabled = true → ids.Nodup
  free : s₀.pendingIndexEnabled = true → ∀ id ∈ ids, s₀.pendingIndex.lookup id = none
  held : s₀.pendingIndexEnabled = true → ∀ id ∈ ids, s.pendingIndex.lookup id ≠ none
  other : ∀ id, (s₀.pendingIndexEnabled = true → id ∉ ids) →
    s.pendingIndex.lookup id = s₀.pendingIndex.lookup id

namespace Holding

variable {n : ℕ} {ids ids' : List Bytes} {s₀ : Store} {id : Bytes}

theorem init (h : Quiet s₀ s) : Holding 0 [] s₀ s :=
  ⟨h.count, h.enabled, h.map, fun _ => .nil, fun _ id hid => absurd hid (by simp),
    fun _ id hid => absurd hid (by simp), fun id _ => h.index id⟩

theorem quiet (h : Holding 0 [] s₀ s) : Quiet s₀ s :=
  ⟨⟨h.count, h.enabled, fun id => h.other id fun _ => by simp⟩, h.map⟩

theorem perm (h : Holding n ids s₀ s) (hp : ids.Perm ids') : Holding n ids' s₀ s where
  count := h.count
  enabled := h.enabled
  map := h.map
  nodup he := hp.nodup_iff.1 (h.nodup he)
  free he id hid := h.free he id (hp.mem_iff.2 hid)
  held he id hid := h.held he id (hp.mem_iff.2 hid)
  other id hid := h.other id fun he hmem => hid he (hp.mem_iff.1 hmem)

theorem trans (h : Holding n ids s₀ s) (hs : Quiet s t) : Holding n ids s₀ t where
  count := hs.count.trans h.count
  enabled := hs.enabled.trans h.enabled
  map := h.map.trans hs.map
  nodup := h.nodup
  free := h.free
  held he id hid := by
    rw [hs.index id]
    exact h.held he id hid
  other id hid := (hs.index id).trans (h.other id hid)

theorem release (h : Holding (n + 1) ids s₀ s) : Holding n ids s₀ (EventSlot.release s) where
  count := by
    show s.pendingEvents - 1 = s₀.pendingEvents + n
    rw [h.count]
    omega
  enabled := h.enabled
  map := h.map
  nodup := h.nodup
  free := h.free
  held := h.held
  other := h.other

theorem off (h : Holding n ids s₀ s) (hoff : ¬s₀.pendingIndexEnabled = true) :
    Holding n ids' s₀ s where
  count := h.count
  enabled := h.enabled
  map := h.map
  nodup he := absurd he hoff
  free he := absurd he hoff
  held he := absurd he hoff
  other id _ := h.other id fun he => absurd he hoff

theorem unprepare (h : Holding n (id :: ids) s₀ s) :
    Holding n ids s₀ (EventSlot.unprepare id s) := by
  unfold EventSlot.unprepare
  split
  · next hen =>
    have hen₀ : s₀.pendingIndexEnabled = true := h.enabled.symm.trans hen
    obtain ⟨hid, hnodup⟩ := List.nodup_cons.1 (h.nodup hen₀)
    have hother : ∀ i, i ≠ id →
        (s.pendingIndex.erase id).lookup i = s.pendingIndex.lookup i :=
      fun i hi => AList.lookup_erase_ne hi
    refine ⟨h.count, h.enabled, h.map, fun _ => hnodup,
      fun he i hi => h.free he i (List.mem_cons_of_mem _ hi), fun he i hi => ?_, fun i hi => ?_⟩
    · show (s.pendingIndex.erase id).lookup i ≠ none
      rw [hother i fun heq => hid (heq ▸ hi)]
      exact h.held he i (List.mem_cons_of_mem _ hi)
    · show (s.pendingIndex.erase id).lookup i = s₀.pendingIndex.lookup i
      by_cases heq : i = id
      · subst heq
        rw [AList.lookup_erase, h.free hen₀ i List.mem_cons_self]
      · rw [hother i heq]
        exact h.other i fun he => by simp [heq, hi he]
  · next hoff => exact h.off fun he => hoff (h.enabled.trans he)

theorem reserve_ends (h : Holding n ids s₀ s) :
    Ends (EventSlot.reserve opts) s (fun _ s' => Holding (n + 1) ids s₀ s')
      fun _ s' => Holding n ids s₀ s' := by
  refine Ends.read_bind (check_bind (fun _ _ => h) fun _ _ => ?_)
  have hcount : s.pendingEvents + 1 = s₀.pendingEvents + (n + 1) := by
    rw [h.count]
    omega
  exact Ends.modify ⟨hcount, h.enabled, h.map, h.nodup, h.free, h.held, h.other⟩

theorem prepare_ends (h : Holding n ids s₀ s) (id : Bytes) :
    Ends (EventSlot.prepare id) s (fun _ s' => Holding n (id :: ids) s₀ s')
      fun _ s' => Holding n ids s₀ s' := by
  refine Ends.read_bind (Ends.read_bind ?_)
  split
  · next hen =>
    have hen₀ : s₀.pendingIndexEnabled = true := h.enabled.symm.trans hen
    refine check_bind (fun _ _ => h) fun _ hfree => ?_
    have hfree : s.pendingIndex.lookup id = none := by simpa [require_eq_ok] using hfree
    have hnew : id ∉ ids := fun hmem => h.held hen₀ id hmem hfree
    have hlookup : ∀ i, i ≠ id →
        (s.pendingIndex.insert id false).lookup i = s.pendingIndex.lookup i :=
      fun i hi => AList.lookup_insert_ne hi
    refine Ends.modify ⟨h.count, h.enabled, h.map, fun he => List.nodup_cons.2 ⟨hnew, h.nodup he⟩,
      fun he i hi => ?_, fun he i hi => ?_, fun i hi => ?_⟩
    · rcases List.mem_cons.1 hi with rfl | hi
      · rw [← h.other i fun _ => hnew, hfree]
      · exact h.free he i hi
    · by_cases heq : i = id
      · simp_all
      · show (s.pendingIndex.insert id false).lookup i ≠ none
        rw [hlookup i heq]
        exact h.held he i ((List.mem_cons.1 hi).resolve_left heq)
    · have hi := hi hen₀
      rw [List.mem_cons, not_or] at hi
      exact (hlookup i hi.1).trans (h.other i fun _ => hi.2)
  · next hoff => exact Ends.pure (h.off fun he => hoff (h.enabled.trans he))

theorem destroy {m : ℕ} (gone : List Bytes) (h : Holding (m + gone.length) (gone ++ ids) s₀ s) :
    Holding m ids s₀
      (gone.foldl (fun s id => EventSlot.release (EventSlot.unprepare id s)) s) := by
  induction gone generalizing s with
  | nil => exact h
  | cons id gone ih => exact ih h.unprepare.release

end Holding

/-! ## What a call that writes does to the events -/

/-- The events `ids` were created. -/
structure Posted (ids : List Bytes) (s₀ s : Store) : Prop where
  count : s.pendingEvents = s₀.pendingEvents + ids.length
  enabled : s.pendingIndexEnabled = s₀.pendingIndexEnabled
  ready : s₀.pendingIndexEnabled = true → ∀ id ∈ ids, s.pendingIndex.lookup id = some true
  other : s₀.pendingIndexEnabled = true → ∀ id, id ∉ ids →
    s.pendingIndex.lookup id = s₀.pendingIndex.lookup id
  stored : ∀ id, (s.db.lookup (.E id)).isSome = true ↔
    id ∈ ids ∨ (s₀.db.lookup (.E id)).isSome = true

/-- The events `ids` were taken off. -/
structure TakenOff (ids : List Bytes) (s₀ s : Store) : Prop where
  nodup : ids.Nodup
  were : ∀ id ∈ ids, (s₀.db.lookup (.E id)).isSome = true
  count : s.pendingEvents = s₀.pendingEvents - ids.length
  enabled : s.pendingIndexEnabled = s₀.pendingIndexEnabled
  gone : s₀.pendingIndexEnabled = true → ∀ id ∈ ids, s.pendingIndex.lookup id = none
  other : s₀.pendingIndexEnabled = true → ∀ id, id ∉ ids →
    s.pendingIndex.lookup id = s₀.pendingIndex.lookup id
  stored : ∀ id, (s.db.lookup (.E id)).isSome = true ↔
    id ∉ ids ∧ (s₀.db.lookup (.E id)).isSome = true

theorem Posted.of_quiet {ids : List Bytes} (h : Posted ids t u) (hq : Quiet s t) :
    Posted ids s u where
  count := by rw [h.count, hq.count]
  enabled := h.enabled.trans hq.enabled
  ready he := h.ready (hq.enabled.trans he)
  other he id hid := (h.other (hq.enabled.trans he) id hid).trans (hq.index id)
  stored id := by rw [h.stored id, hq.stored id]

inductive EventsAfter (s s' : Store) : Prop
  | kept (hs : SameEvents s s')
      (hstored : ∀ id, (s'.db.lookup (.E id)).isSome = (s.db.lookup (.E id)).isSome)
  | posted {ids : List Bytes} (h : Posted ids s s')
  | taken {ids : List Bytes} (h : TakenOff ids s s')

theorem Quiet.after (h : Quiet s s') : EventsAfter s s' :=
  .kept h.toSameEvents fun id => by rw [h.stored id]

theorem commit_events (ids : List Bytes) (s : Store) :
    SameData s (ids.foldl (fun s id => EventSlot.commit id s) s) ∧
    (ids.foldl (fun s id => EventSlot.commit id s) s).pendingEvents = s.pendingEvents ∧
    (ids.foldl (fun s id => EventSlot.commit id s) s).pendingIndexEnabled = s.pendingIndexEnabled ∧
    (s.pendingIndexEnabled = true → ∀ id, id ∈ ids →
      (ids.foldl (fun s id => EventSlot.commit id s) s).pendingIndex.lookup id = some true) ∧
    ∀ id, (s.pendingIndexEnabled = true → id ∉ ids) →
      (ids.foldl (fun s id => EventSlot.commit id s) s).pendingIndex.lookup id =
        s.pendingIndex.lookup id := by
  induction ids generalizing s with
  | nil => exact ⟨.refl s, rfl, rfl, fun _ id hid => absurd hid (by simp), fun _ _ => rfl⟩
  | cons id ids ih =>
    obtain ⟨hdata, hcount, hen, hready, hother⟩ := ih (EventSlot.commit id s)
    have hcommit : (EventSlot.commit id s).pendingIndexEnabled = s.pendingIndexEnabled := by
      unfold EventSlot.commit
      split <;> rfl
    rw [List.foldl_cons]
    refine ⟨(sameData_commit id s).trans hdata, hcount.trans ?_, hen.trans hcommit, ?_, ?_⟩
    · unfold EventSlot.commit
      split <;> rfl
    · intro he i hi
      by_cases hmem : i ∈ ids
      · exact hready (hcommit.trans he) i hmem
      · rw [hother i fun _ => hmem, (List.mem_cons.1 hi).resolve_right hmem, EventSlot.commit,
          if_pos he]
        exact AList.lookup_insert _
    · intro i hi
      rw [hother i fun he hmem => hi (hcommit.symm.trans he) (List.mem_cons_of_mem _ hmem)]
      unfold EventSlot.commit
      split
      · next he => exact AList.lookup_insert_ne fun heq => hi he (heq ▸ List.mem_cons_self)
      · rfl

theorem Holding.posted {ids ids' : List Bytes} {s₀ : Store} (h : Holding ids.length ids' s₀ s)
    (hids : ∀ id, id ∈ ids' ↔ id ∈ ids) (hs : SameEvents s t)
    (hstored : ∀ id, (t.db.lookup (.E id)).isSome = true ↔
      id ∈ ids ∨ (s.db.lookup (.E id)).isSome = true) :
    Posted ids s₀ (ids.foldl (fun s id => EventSlot.commit id s) t) := by
  obtain ⟨hdata, hcount, hen, hready, hother⟩ := commit_events ids t
  have hen' := hs.enabled.trans h.enabled
  refine ⟨hcount.trans (hs.count.trans h.count), hen.trans hen',
    fun he => hready (hen'.trans he), fun he id hid => ?_, fun id => ?_⟩
  · rw [hother id fun _ => hid, hs.index id]
    exact h.other id fun _ hmem => hid ((hids id).1 hmem)
  · rw [hdata.db, hstored id, h.map _ (by simp)]

/-! ## The invariant -/

structure Indexed (s : Store) : Prop where
  count : (eventKeys s.db).length ≤ s.pendingEvents
  ready : s.pendingIndexEnabled = true → ∀ id, (s.db.lookup (.E id)).isSome = true →
    s.pendingIndex.lookup id = some true
  only : s.pendingIndexEnabled = true → ∀ id, (s.db.lookup (.E id)).isSome = false →
    s.pendingIndex.lookup id = none

theorem mem_eventKeys {db : Db} {id : Bytes} :
    id ∈ eventKeys db ↔ (db.lookup (.E id)).isSome = true := by
  rw [eventKeys, List.mem_filterMap, AList.lookup_isSome]
  constructor
  · rintro ⟨k, hk, hid⟩
    cases k with
    | E id' =>
      cases hid
      exact hk
    | _ => cases hid
  · exact fun hk => ⟨_, hk, rfl⟩

theorem eventKeys_nodup (db : Db) : (eventKeys db).Nodup := by
  refine db.keys_nodup.filterMap fun k k' id hk hk' => ?_
  cases k with
  | E i =>
    cases k' with
    | E i' =>
      cases hk
      cases hk'
      rfl
    | _ => cases hk'
  | _ => cases hk

theorem Indexed.after (h : Indexed s) (ha : EventsAfter s s') : Indexed s' := by
  cases ha with
  | kept hs hstored =>
    refine ⟨?_, fun he id hid => ?_, fun he id hid => ?_⟩
    · rw [hs.count]
      refine le_trans ?_ h.count
      refine ((eventKeys_nodup _).subperm fun id hid => ?_).length_le
      rw [mem_eventKeys] at hid ⊢
      rwa [← hstored id]
    · rw [hs.index id]
      exact h.ready (hs.enabled.symm.trans he) id (by rwa [← hstored id])
    · rw [hs.index id]
      exact h.only (hs.enabled.symm.trans he) id (by rwa [← hstored id])
  | @posted ids hp =>
    refine ⟨?_, fun he id hid => ?_, fun he id hid => ?_⟩
    · have hle : (eventKeys s'.db).length ≤ (ids ++ eventKeys s.db).length := by
        refine ((eventKeys_nodup _).subperm fun id hid => ?_).length_le
        rw [mem_eventKeys, hp.stored id] at hid
        rw [List.mem_append, mem_eventKeys]
        exact hid
      have := h.count
      rw [hp.count]
      rw [List.length_append] at hle
      omega
    · have he₀ := hp.enabled.symm.trans he
      by_cases hmem : id ∈ ids
      · exact hp.ready he₀ id hmem
      · rw [hp.other he₀ id hmem]
        exact h.ready he₀ id (((hp.stored id).1 hid).resolve_left hmem)
    · have he₀ := hp.enabled.symm.trans he
      have hnot : ¬(id ∈ ids ∨ (s.db.lookup (.E id)).isSome = true) := by
        rw [← hp.stored id, hid]
        exact Bool.false_ne_true
      rw [not_or] at hnot
      rw [hp.other he₀ id hnot.1]
      exact h.only he₀ id (by simpa using hnot.2)
  | @taken ids ht =>
    refine ⟨?_, fun he id hid => ?_, fun he id hid => ?_⟩
    · have hle : (ids ++ eventKeys s'.db).length ≤ (eventKeys s.db).length := by
        refine (List.Nodup.subperm ?_ fun id hid => ?_).length_le
        · refine List.nodup_append.2 ⟨ht.nodup, eventKeys_nodup _, fun a ha b hb heq => ?_⟩
          rw [mem_eventKeys, ht.stored b] at hb
          exact hb.1 (heq ▸ ha)
        · rw [mem_eventKeys]
          rcases List.mem_append.1 hid with hid | hid
          · exact ht.were id hid
          · exact ((ht.stored id).1 (mem_eventKeys.1 hid)).2
      have := h.count
      rw [ht.count]
      grind
    · obtain ⟨hnot, hstored⟩ := (ht.stored id).1 hid
      have he₀ := ht.enabled.symm.trans he
      rw [ht.other he₀ id hnot]
      exact h.ready he₀ id hstored
    · have he₀ := ht.enabled.symm.trans he
      by_cases hmem : id ∈ ids
      · exact ht.gone he₀ id hmem
      · rw [ht.other he₀ id hmem]
        refine h.only he₀ id ?_
        by_contra hstored
        have := (ht.stored id).2 ⟨hmem, Bool.eq_true_of_not_eq_false hstored⟩
        rw [hid] at this
        cases this

/-! ## Persisting -/

/-- A batch creates the events `ids` and takes none off. -/
structure Posts (ids : List Bytes) (batch : List Write) : Prop where
  put : ∀ id, (∃ row, Write.put (.E id) row ∈ batch) ↔ id ∈ ids
  delete : ∀ id, Kv.Write.delete (Key.E id) ∉ batch

theorem Posts.stored {ids : List Bytes} {batch : List Write} (h : Posts ids batch) (db : Db)
    (id : Bytes) : ((apply db batch).lookup (.E id)).isSome = true ↔
      id ∈ ids ∨ (db.lookup (.E id)).isSome = true := by
  rw [isSome_apply_of_no_delete (h.delete id), h.put id]

theorem Posts.append {ids ids' : List Bytes} {b b' : List Write} (h : Posts ids b)
    (h' : Posts ids' b') : Posts (ids ++ ids') (b ++ b') where
  put id := by simp only [List.mem_append, exists_or, h.put, h'.put]
  delete id := by
    rw [List.mem_append, not_or]
    exact ⟨h.delete id, h'.delete id⟩

theorem posts_nil {batch : List Write} (h : ∀ w ∈ batch, w.key.isEvent = false) :
    Posts [] batch where
  put id := by
    simp only [List.not_mem_nil, iff_false, not_exists]
    intro row hrow
    cases h _ hrow
  delete id hmem := by cases h _ hmem

theorem posts_eventWrites (row : PendingLocalEvent) : Posts [row.eventId] (eventWrites row) where
  put id := by
    simp only [eventWrites, List.mem_cons, List.not_mem_nil, or_false]
    simp_all
  delete id := by simp [eventWrites]

theorem posts_message (m : MessageView) (canonical : Bytes) (total dialog pending : ℕ)
    (row : PendingLocalEvent) :
    Posts [row.eventId] (messageWrites m canonical total dialog pending ++ eventWrites row) := by
  have hmessage : Posts [] (messageWrites m canonical total dialog pending) :=
    posts_nil (by simp [messageWrites, Kv.Write.key, Key.isEvent])
  exact hmessage.append (posts_eventWrites row)

/-- The messages `ns` were created with their events, and nothing else was changed. -/
structure Wrote (ns : List NewMessage) (s s' : Store) : Prop
    extends Posted (ns.map fun n => n.row.eventId) s s' where
  map : SameMap (apply s.db (groupBatch s.db ns)) s'.db

theorem groupBatch_append (db : Db) (ns ns' : List NewMessage) :
    groupBatch db (ns ++ ns') = groupBatch db ns ++ groupBatch (apply db (groupBatch db ns)) ns' := by
  induction ns generalizing db with
  | nil => rfl
  | cons n ns ih => simp [groupBatch, ih, apply_append]

theorem Quiet.wrote (h : Quiet s s') : Wrote [] s s' where
  count := h.count
  enabled := h.enabled
  ready _ id hid := absurd hid (by simp)
  other _ id _ := h.index id
  stored id := by rw [h.stored id]; simp
  map := h.map

theorem Wrote.of_quiet {ns : List NewMessage} (h : Wrote ns t u) (hq : Quiet s t) :
    Wrote ns s u where
  toPosted := h.toPosted.of_quiet hq
  map := by
    rw [← groupBatch_congr hq.map]
    exact (hq.map.apply _).trans h.map

theorem Posted.append {ids ids' : List Bytes} (h : Posted ids s t) (h' : Posted ids' t u) :
    Posted (ids ++ ids') s u where
  count := by
    rw [h'.count, h.count, List.length_append]
    omega
  enabled := h'.enabled.trans h.enabled
  ready he id hid := by
    by_cases hmem : id ∈ ids'
    · exact h'.ready (h.enabled.trans he) id hmem
    · rw [h'.other (h.enabled.trans he) id hmem]
      exact h.ready he id ((List.mem_append.1 hid).resolve_right hmem)
  other he id hid := by
    rw [List.mem_append, not_or] at hid
    rw [h'.other (h.enabled.trans he) id hid.2, h.other he id hid.1]
  stored id := by
    rw [h'.stored id, h.stored id, List.mem_append]
    exact or_left_comm.trans or_assoc.symm

theorem Wrote.append {ns ns' : List NewMessage} (h : Wrote ns s t) (h' : Wrote ns' t u) :
    Wrote (ns ++ ns') s u where
  toPosted := by
    rw [List.map_append]
    exact h.toPosted.append h'.toPosted
  map := by
    rw [groupBatch_append, apply_append, ← groupBatch_congr h.map]
    exact (h.map.apply _).trans h'.map

variable {inp : PersistInput} {canonical : Bytes} {item : ℕ}

theorem createMessage_events :
    Ends (createMessage opts env item inp canonical) s
      (fun r s' => r.isCreated = true ∧ ∃ n, n.message = r.record ∧ Wrote [n] s s')
      fun _ s' => Quiet s s' := by
  refine check_bind (fun _ _ => .refl s) fun _ _ => check_bind (fun _ _ => .refl s) fun _ _ => ?_
  have h₀ : Holding 0 [] s s := .init (.refl s)
  refine Ends.bind (h₀.reserve_ends.mono (fun _ _ h => h) fun _ _ h => h.quiet) fun _ t₁ h₁ => ?_
  -- from here on the slot is reserved, and its destructor runs
  have hback : ∀ {t : Store}, Holding 1 [] s t → Quiet s (EventSlot.release t) :=
    fun h => h.release.quiet
  refine Ends.onThrow ?_
  refine check_bind (fun _ _ => hback h₁) fun _ _ => ?_
  refine Ends.bind (silent_nextMessageId.mono (fun _ _ hq => h₁.trans hq)
    fun _ _ hq => hback (h₁.trans hq)) fun mid t₂ h₂ => ?_
  refine Ends.read_bind ?_
  refine check_bind (fun _ _ => hback h₂) fun _ _ => ?_
  refine check_bind (fun _ _ => hback h₂) fun _ _ => ?_
  refine check_bind (fun _ _ => hback h₂) fun row _ => ?_
  refine Ends.bind ((h₂.prepare_ends row.eventId).mono (fun _ _ h => h)
    fun _ _ h => hback h) fun _ t₃ h₃ => ?_
  have hwrite := write_quiet env t₃ (messageWrites (newRecord env.clock inp mid)
    canonical (totalCount t₂.db inp.toUserId) (dialogCount t₂.db inp.toUserId inp.fromUserId)
    (pendingCount t₂.db inp.toUserId) ++ eventWrites row) true
  refine Ends.bind (Ends.onThrow (hwrite.mono (fun _ _ h => h)
    fun _ _ hq => hback (h₃.trans hq).unprepare)) fun _ t₄ h₄ => ?_
  set n : NewMessage := ⟨newRecord env.clock inp mid, canonical, row⟩ with hn
  refine Ends.modify_bind (Ends.pure ⟨rfl, n, rfl, ?_⟩)
  have hposted : Posted [row.eventId] s
      ([row.eventId].foldl (fun s id => EventSlot.commit id s) t₄) := by
    refine Holding.posted h₃ (fun _ => Iff.rfl) h₄.1 fun id => ?_
    rw [h₄.2]
    exact (posts_message _ _ _ _ _ row).stored t₃.db id
  refine ⟨hposted, ?_⟩
  have hbatch : groupBatch s.db [n] = messageWrites (newRecord env.clock inp mid) canonical
      (totalCount t₂.db inp.toUserId) (dialogCount t₂.db inp.toUserId inp.fromUserId)
      (pendingCount t₂.db inp.toUserId) ++ eventWrites row := by
    rw [← groupBatch_congr h₂.map]
    exact List.append_nil _
  rw [hbatch, (sameData_commit _ _).db, h₄.2]
  exact h₃.map.apply _

theorem persistBody_events (opts : Options) (env : Env) (item : ℕ) (inp : PersistInput) :
    Ends (persistBody opts env item inp) s
      (fun r s' => r.status = .succeeded ∧ (r.isCreated = false ∧ Quiet s s' ∨
        r.isCreated = true ∧ ∃ n, n.message = r.record ∧ Wrote [n] s s'))
      fun _ s' => Quiet s s' := by
  refine check_bind (fun _ _ => .refl s) fun canonical _ => ?_
  refine Ends.bind (silent_lockUsers _) fun _ t ht => ?_
  refine Ends.inspect_bind (fun _ _ => ht) fun existing _ => ?_
  cases existing with
  | some m => exact Ends.pure ⟨rfl, .inl ⟨isCreated_existingResult _ _, ht⟩⟩
  | none =>
    refine createMessage_events.mono (fun r _ h => ?_) fun _ _ h => ht.trans h
    obtain ⟨hcreated, n, hn, h⟩ := h
    have hstatus : r.status = .succeeded := by
      simp only [PersistResult.isCreated, Bool.and_eq_true, decide_eq_true_eq] at hcreated
      exact hcreated.1
    exact ⟨hstatus, .inr ⟨hcreated, n, hn, h.of_quiet ht⟩⟩

theorem persistPrivateMessage_events (opts : Options) (env : Env) (item : ℕ) (inp : PersistInput)
    (s : Store) :
    Quiet s (persistPrivateMessage opts env item inp s).2 ∧
      ((persistPrivateMessage opts env item inp s).1.isCreated = false ∨
        ∃ e, (persistPrivateMessage opts env item inp s).1 = .ofFailure e) ∨
    (persistPrivateMessage opts env item inp s).1.isCreated = true ∧
      ∃ n, n.message = (persistPrivateMessage opts env item inp s).1.record ∧
        Wrote [n] s (persistPrivateMessage opts env item inp s).2 := by
  rcases call_ends id PersistResult.ofFailure (E := fun _ s' => Quiet s s') (fun _ _ => .refl s)
    fun _ => persistBody_events opts env item inp with
    ⟨r, hr, -, ⟨hcreated, hq⟩ | ⟨hcreated, hn⟩⟩ | ⟨e, hr, hq⟩
  · rw [persistPrivateMessage, hr]
    exact .inl ⟨hq, .inl hcreated⟩
  · rw [persistPrivateMessage, hr]
    exact .inr ⟨hcreated, hn⟩
  · rw [persistPrivateMessage, hr]
    exact .inl ⟨hq, .inr ⟨e, rfl⟩⟩

theorem persistPrivateMessage_after (opts : Options) (env : Env) (item : ℕ) (inp : PersistInput)
    (s : Store) : EventsAfter s (persistPrivateMessage opts env item inp s).2 := by
  rcases persistPrivateMessage_events opts env item inp s with ⟨hq, -⟩ | ⟨-, n, -, hw⟩
  · exact hq.after
  · exact .posted hw.toPosted

theorem TakenOff.of_quiet {ids : List Bytes} (h : TakenOff ids t u) (hq : Quiet s t) :
    TakenOff ids s u where
  nodup := h.nodup
  were id hid := by
    rw [← hq.stored id]
    exact h.were id hid
  count := by rw [h.count, hq.count]
  enabled := h.enabled.trans hq.enabled
  gone he := h.gone (hq.enabled.trans he)
  other he id hid := (h.other (hq.enabled.trans he) id hid).trans (hq.index id)
  stored id := by rw [h.stored id, hq.stored id]

theorem EventsAfter.of_quiet (h : EventsAfter t u) (hq : Quiet s t) : EventsAfter s u := by
  cases h with
  | kept hs hstored =>
    exact .kept (hq.toSameEvents.trans hs) fun id => by rw [hstored id, hq.stored id]
  | posted hp => exact .posted (hp.of_quiet hq)
  | taken ht => exact .taken (ht.of_quiet hq)

/-! ## Groups -/

structure StagedSlots (s₀ : Store) (b : Batch) (s : Store) : Prop where
  holding : Holding b.creates.length (b.creates.map Create.eventId) s₀ s
  posts : ∀ c ∈ b.creates, Posts [c.eventId] c.writes

variable {s₀ : Store} {b : Batch}

theorem StagedSlots.push (h : StagedSlots s₀ b s) (r : PersistResult) (p : Bool) :
    StagedSlots s₀ (b.push r p) s := ⟨h.holding, h.posts⟩

theorem stageMessage_events (opts : Options) (env : Env) (inp : PersistInput) (canonical : Bytes)
    (h : StagedSlots s₀ b s) :
    Ends (stageMessage opts env b inp canonical) s (fun b' s' => StagedSlots s₀ b' s')
      fun _ s' => StagedSlots s₀ b s' := by
  refine check_bind (fun _ _ => h) fun _ _ => check_bind (fun _ _ => h) fun _ _ => ?_
  refine Ends.bind (h.holding.reserve_ends.mono (fun _ _ h => h)
    fun _ _ hh => ⟨hh, h.posts⟩) fun _ t₁ h₁ => ?_
  have hback : ∀ {t : Store}, Holding (b.creates.length + 1) (b.creates.map Create.eventId) s₀ t →
      StagedSlots s₀ b (EventSlot.release t) := fun hh => ⟨hh.release, h.posts⟩
  refine Ends.onThrow ?_
  refine check_bind (fun _ _ => hback h₁) fun _ _ => ?_
  refine Ends.bind (silent_nextMessageId.mono (fun _ _ hq => h₁.trans hq)
    fun _ _ hq => hback (h₁.trans hq)) fun mid t₂ h₂ => ?_
  refine Ends.read_bind ?_
  refine check_bind (fun _ _ => hback h₂) fun _ _ => ?_
  refine check_bind (fun _ _ => hback h₂) fun row _ => ?_
  refine check_bind (fun _ _ => hback h₂) fun _ _ => ?_
  refine Ends.bind ((h₂.prepare_ends row.eventId).mono (fun _ _ h => h)
    fun _ _ h => hback h) fun _ t₃ h₃ => ?_
  refine Ends.pure ⟨?_, fun c hc => ?_⟩
  · have hids : (row.eventId :: b.creates.map Create.eventId).Perm
        (b.creates.map Create.eventId ++ [row.eventId]) := (List.perm_append_singleton _ _).symm
    simpa [Batch.stage] using h₃.perm hids
  · simp only [Batch.stage, List.mem_append, List.mem_singleton] at hc
    rcases hc with hc | rfl
    · exact h.posts c hc
    · exact posts_message _ _ _ _ _ row

theorem stageItem_events (h : StagedSlots s₀ b s) (checked : Except Failure Bytes) :
    StagedSlots s₀ (stageItem opts env inp checked b s).1 (stageItem opts env inp checked b s).2 := by
  unfold stageItem
  cases checked with
  | error e => exact h.push _ _
  | ok canonical =>
    dsimp only
    split
    · exact h.push _ _
    · split
      · exact h.push _ _
      · exact h.push _ _
      · have hends := stageMessage_events opts env inp canonical h
        split
        · next hrun => exact (hends.of_error hrun).push _ _
        · next hrun => exact hends.of_ok hrun

theorem stageItems_events (items : List (PersistInput × Except Failure Bytes))
    (h : StagedSlots s₀ b s) :
    StagedSlots s₀ (stageItems opts env items b s).1 (stageItems opts env items b s).2 := by
  induction items generalizing b s with
  | nil => exact h
  | cons x items ih => exact ih (stageItem_events h x.2)

theorem posts_flatMap {creates : List Create} (h : ∀ c ∈ creates, Posts [c.eventId] c.writes) :
    Posts (creates.map Create.eventId) (creates.flatMap Create.writes) := by
  induction creates with
  | nil => exact posts_nil (by simp)
  | cons c creates ih =>
    rw [List.map_cons, List.flatMap_cons]
    exact (h c List.mem_cons_self).append (ih fun c' hc' => h c' (List.mem_cons_of_mem _ hc'))

theorem StagedSlots.committed (h : StagedSlots s₀ b s) (hs : SameEvents s t)
    (hdb : t.db = apply s.db (b.creates.flatMap Create.writes)) :
    Posted (b.creates.map Create.eventId) s₀
      (b.creates.foldl (fun s c => EventSlot.commit c.eventId s) t) := by
  have hh : Holding (b.creates.map Create.eventId).length (b.creates.map Create.eventId) s₀ s := by
    rw [List.length_map]
    exact h.holding
  have hposted := hh.posted (fun _ => Iff.rfl) hs fun id => by
    rw [hdb]
    exact (posts_flatMap h.posts).stored s.db id
  rw [List.foldl_map] at hposted
  exact hposted

theorem StagedSlots.destroyed (h : StagedSlots s₀ b s) (hq : Quiet s t) :
    Quiet s₀ (b.creates.foldl
      (fun s c => EventSlot.release (EventSlot.unprepare c.eventId s)) t) := by
  have hh : Holding (0 + (b.creates.map Create.eventId).length)
      (b.creates.map Create.eventId ++ []) s₀ t := by
    rw [List.append_nil, List.length_map, Nat.zero_add]
    exact h.holding.trans hq
  have hquiet := hh.destroy.quiet
  rw [List.foldl_map] at hquiet
  exact hquiet

theorem StagedSlots.quiet (h : StagedSlots s₀ b s) (hnone : b.creates = []) : Quiet s₀ s := by
  have hh := h.holding
  rw [hnone] at hh
  exact hh.quiet

theorem commitBatch_after (h : StagedSlots s₀ b s) :
    EventsAfter s₀ (commitBatch opts env b s).2 := by
  have hwrite := write_quiet env s (b.creates.flatMap Create.writes) true
  unfold commitBatch
  split
  · next hempty => exact (h.quiet (List.isEmpty_iff.1 hempty)).after
  split
  · next s' hrun =>
    obtain ⟨hs, hdb⟩ := hwrite.of_ok hrun
    exact .posted (h.committed hs hdb)
  · next hrun => exact (h.destroyed (hwrite.of_error hrun)).after

end TinyImx.Local
