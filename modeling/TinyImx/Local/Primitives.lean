import TinyImx.Local.Changes

/-!
# What the primitives of the store ensure

One statement for each primitive: the fence, the locks, the write, the next message id and the event
slots.  A call that fails may report one of the internal checks only when a hook gave it that text:
`Admissible`.
-/

namespace TinyImx.Local

open Kv Act

/-! ## Internal checks -/

def counterChecks : List String :=
  ["invalid local unread counters", "local pending counter underflow",
    "local receiver batch pending underflow", "owned receiver batch pending underflow",
    "local dialog/read counters disagree", "orphan local pending index",
    "local user unread total disagrees"]

def identityChecks : List String :=
  ["orphan local CID index", "mismatched local canonical identity", "orphan/mismatched local CID"]

def internalChecks : List String := counterChecks ++ identityChecks

def FromHook (env : Env) (text : String) : Prop :=
  (∃ item a b cid, (env.resolve item a b cid).message = text) ∨
    ∃ item a b, (env.pin item a b).message = text

structure Admissible (env : Env) (e : Failure) : Prop where
  status : e.status ≠ .succeeded
  text : e.message ∈ internalChecks → FromHook env e.message

variable {env : Env} {opts : Options} {s s' : Store} {K : Change → Prop}

theorem admissible_of_not_mem {status : Status} {text : String}
    (h : status ≠ .succeeded ∧ text ∉ internalChecks) : Admissible env ⟨status, text⟩ :=
  ⟨h.1, fun hmem => absurd hmem h.2⟩

theorem raises_require {b : Bool} {status : Status} {text : String} {P : Failure → Prop}
    (h : P ⟨status, text⟩) : Raises (require b status text) P := by
  unfold require
  split
  · exact raises_ok _ _
  · exact raises_error h

theorem raises_admissible {b : Bool} {status : Status} {text : String}
    (h : status ≠ .succeeded ∧ text ∉ internalChecks) :
    Raises (require b status text) (Admissible env) :=
  raises_require (admissible_of_not_mem h)

theorem require_eq_ok {b : Bool} {status : Status} {text : String} {u : Unit} :
    require b status text = .ok u ↔ b = true := by
  unfold require
  split <;> simp_all

theorem engine_text_not_mem (text : String) : "local engine: " ++ text ∉ internalChecks := by
  intro h
  have hhead : ∀ t ∈ internalChecks, t.toList.take 14 ≠ "local engine: ".toList := by decide
  refine hhead _ h ?_
  rw [String.toList_append]
  exact List.take_left' (by decide)

/-! ## Checks on the caller's input -/

theorem actor_admissible (id : ℕ) : Raises (actor opts id) (Admissible env) := by
  unfold actor
  refine (raises_admissible (by decide)).bind fun _ _ => ?_
  split
  · exact raises_ok _ _
  · exact raises_admissible (by decide)

theorem actor_pos {id : ℕ} {u : Unit} (h : actor opts id = .ok u) : 0 < id := by
  obtain ⟨_, h, -⟩ := bind_eq_ok.1 h
  simpa [require_eq_ok] using h

theorem dialog_admissible (a b : ℕ) : Raises (dialog opts a b) (Admissible env) := by
  refine (actor_admissible a).bind fun _ _ => ?_
  refine (actor_admissible b).bind fun _ _ => ?_
  exact raises_admissible (by decide)

theorem dialog_ok {a b : ℕ} {u : Unit} (h : dialog opts a b = .ok u) : 0 < a ∧ 0 < b ∧ a ≠ b := by
  obtain ⟨_, ha, h⟩ := bind_eq_ok.1 h
  obtain ⟨_, hb, h⟩ := bind_eq_ok.1 h
  exact ⟨actor_pos ha, actor_pos hb, by simpa [require_eq_ok] using h⟩

theorem identity_admissible (item a b : ℕ) (cid : Bytes) :
    Raises (identity opts env item a b cid) (Admissible env) := by
  unfold identity
  split
  · dsimp only
    split
    · next hstatus => exact raises_error ⟨hstatus, fun _ => .inl ⟨item, a, b, cid, rfl⟩⟩
    · exact (raises_admissible (by decide)).bind fun _ _ => raises_ok _ _
  · exact raises_ok _ _

theorem checkOpen_admissible (s : Store) : Raises (checkOpen s) (Admissible env) :=
  raises_admissible (by decide)

/-! ## Failures -/

def SameMap (db db' : Db) : Prop := ∀ k, k ≠ .high → db'.lookup k = db.lookup k

theorem SameMap.refl (db : Db) : SameMap db db := fun _ _ => rfl

theorem SameMap.trans {a b c : Db} (h : SameMap a b) (h' : SameMap b c) : SameMap a c :=
  fun k hk => (h' k hk).trans (h k hk)

theorem SameData.refl (s : Store) : SameData s s := ⟨rfl, rfl, rfl, rfl, rfl⟩

theorem SameData.trans {s t u : Store} (h : SameData s t) (h' : SameData t u) : SameData s u :=
  ⟨h'.db.trans h.db, h'.log.trans h.log, h'.nextId.trans h.nextId,
    h'.reservedEnd.trans h.reservedEnd, h'.poisoned.trans h.poisoned⟩

theorem SameData.sameMap (h : SameData s s') : SameMap s.db s'.db := fun _ _ => by rw [h.db]

/-- What a call that throws leaves behind: moves of the kind `K`, a map that may have reserved
message ids but is otherwise unchanged, and an admissible failure. -/
structure Failed (K : Change → Prop) (env : Env) (s : Store) (e : Failure) (s' : Store) : Prop where
  moves : Moves K s s'
  map : SameMap s.db s'.db
  admissible : Admissible env e

section

variable {α : Type} {x : StoreM α} {Q : α → Store → Prop} {t : Store}

theorem Failed.raises {x : Except Failure α} (h : Moves K s t) (hmap : SameMap s.db t.db)
    (hx : Raises x (Admissible env)) : Raises x (Failed K env s · t) :=
  fun e he => ⟨h, hmap, hx e he⟩

theorem Failed.raises_refl {x : Except Failure α} (hx : Raises x (Admissible env)) :
    Raises x (Failed K env s · s) := Failed.raises (.refl s) (.refl _) hx

theorem Failed.after (h : Moves K s t) (hmap : SameMap s.db t.db)
    (hx : Ends x t Q (Failed K env t)) : Ends x t Q (Failed K env s) :=
  hx.mono (fun _ _ hq => hq) fun _ _ he => ⟨h.trans he.moves, hmap.trans he.map, he.admissible⟩

theorem Failed.same (h : Moves K s t) (hmap : SameMap s.db t.db)
    (hx : Ends x t Q fun e s' => SameData t s' ∧ Admissible env e) : Ends x t Q (Failed K env s) :=
  hx.mono (fun _ _ hq => hq) fun _ _ he => ⟨h.frame he.1, hmap.trans he.1.sameMap, he.2⟩

theorem Failed.same_refl (hx : Ends x s Q fun e s' => SameData s s' ∧ Admissible env e) :
    Ends x s Q (Failed K env s) := Failed.same (.refl s) (.refl _) hx

theorem Failed.onThrow {f : Store → Store} (hf : ∀ u, SameData u (f u))
    (hx : Ends x t Q (Failed K env s)) : Ends (Act.onThrow x f) t Q (Failed K env s) :=
  Ends.onThrow (hx.mono (fun _ _ hq => hq) fun _ u he =>
    ⟨he.moves.frame (hf u), he.map.trans (hf u).sameMap, he.admissible⟩)

end

/-! ## Calls -/

theorem call_ends {α β : Type} {x : StoreM α} (ok : α → β) (failed : Failure → β)
    {Q : α → Store → Prop} {E : Failure → Store → Prop} (hE : Raises (checkOpen s) (E · s))
    (h : checkOpen s = .ok () → Ends x s Q E) :
    (∃ a, (call x ok failed s).1 = ok a ∧ Q a (call x ok failed s).2) ∨
      ∃ e, (call x ok failed s).1 = failed e ∧ E e (call x ok failed s).2 := by
  have hbody : Ends (do Act.inspect checkOpen; x : StoreM α) s Q E := by
    exact Ends.inspect_bind hE fun _ hopen => h hopen
  unfold call
  rcases hx : (do Act.inspect checkOpen; x : StoreM α) s with ⟨r, s'⟩
  cases r with
  | ok a => exact .inl ⟨a, rfl, hbody.of_ok hx⟩
  | error e => exact .inr ⟨e, rfl, hbody.of_error hx⟩

/-! ## Locks and slots -/

theorem check_bind {α β : Type} {x : Except Failure α} {f : α → StoreM β} {R : β → Store → Prop}
    {E : Failure → Store → Prop} (hE : Raises x (E · s))
    (h : ∀ a, x = .ok a → Ends (f a) s R E) : Ends (check x >>= f) s R E :=
  Ends.inspect_bind hE h

theorem registerLock_ends (a : ℕ) :
    Ends (registerLock a) s (fun _ s' => SameData s s')
      fun e s' => SameData s s' ∧ Admissible env e := by
  refine check_bind (fun e he => ⟨.refl s, raises_admissible (by decide) e he⟩) fun _ _ => ?_
  refine Ends.read_bind ?_
  split
  · exact Ends.pure (.refl _)
  · refine check_bind (fun e he => ⟨.refl s, raises_admissible (by decide) e he⟩) fun _ _ => ?_
    exact Ends.modify ⟨rfl, rfl, rfl, rfl, rfl⟩

theorem lockActors_ends (actors : List ℕ) :
    Ends (lockActors actors) s (fun _ s' => SameData s s')
      fun e s' => SameData s s' ∧ Admissible env e := by
  induction actors generalizing s with
  | nil => exact Ends.pure (.refl s)
  | cons a actors ih =>
    refine Ends.bind (registerLock_ends a) fun _ t ht => ?_
    exact ih.mono (fun _ u hu => ht.trans hu) fun e u hu => ⟨ht.trans hu.1, hu.2⟩

theorem lockUsers_ends (actors : List ℕ) :
    Ends (lockUsers opts actors) s (fun _ s' => SameData s s')
      fun e s' => SameData s s' ∧ Admissible env e := by
  unfold lockUsers
  split
  · exact lockActors_ends _
  · exact Ends.pure (.refl s)

theorem reserve_ends : Ends (EventSlot.reserve opts) s (fun _ s' => SameData s s')
    fun e s' => SameData s s' ∧ Admissible env e := by
  refine Ends.read_bind ?_
  refine check_bind (fun e he => ⟨.refl s, raises_admissible (by decide) e he⟩) fun _ _ => ?_
  exact Ends.modify ⟨rfl, rfl, rfl, rfl, rfl⟩

theorem prepare_ends (id : Bytes) : Ends (EventSlot.prepare id) s (fun _ s' => SameData s s')
    fun e s' => SameData s s' ∧ Admissible env e := by
  refine Ends.read_bind (Ends.read_bind ?_)
  split
  · refine check_bind (fun e he => ⟨.refl s, raises_admissible (by decide) e he⟩) fun _ _ => ?_
    exact Ends.modify ⟨rfl, rfl, rfl, rfl, rfl⟩
  · exact Ends.pure (.refl _)

theorem sameData_commit (id : Bytes) (s : Store) : SameData s (EventSlot.commit id s) := by
  unfold EventSlot.commit
  split
  · exact ⟨rfl, rfl, rfl, rfl, rfl⟩
  · exact .refl s

theorem sameData_unprepare (id : Bytes) (s : Store) : SameData s (EventSlot.unprepare id s) := by
  unfold EventSlot.unprepare
  split
  · exact ⟨rfl, rfl, rfl, rfl, rfl⟩
  · exact .refl s

theorem sameData_release (s : Store) : SameData s (EventSlot.release s) := ⟨rfl, rfl, rfl, rfl, rfl⟩

theorem sameData_foldl {α : Type} {f : Store → α → Store} (hf : ∀ s a, SameData s (f s a))
    (l : List α) (s : Store) : SameData s (l.foldl f s) := by
  induction l generalizing s with
  | nil => exact .refl s
  | cons a l ih => exact (hf s a).trans (ih _)

/-! ## Writes -/

theorem write_ends {c : Change} (hK : K c) (hc : c.Fits s) :
    Ends (write env (c.batch s.db) c.sync) s
      (fun _ s' => s' = s.written c ∧ s.poisoned = false) (Failed K env s) := by
  unfold Ends write
  by_cases hp : s.poisoned = true
  · rw [if_pos hp]
    exact ⟨.refl s, .refl _, admissible_of_not_mem (by decide)⟩
  · rw [if_neg hp]
    have hp : s.poisoned = false := by simpa using hp
    cases env.engine s.engineWriteCalls with
    | done => exact ⟨rfl, hp⟩
    | failed logged text =>
      exact ⟨.single (.failed logged hK hc hp), .refl _,
        admissible_of_not_mem ⟨by decide, engine_text_not_mem text⟩⟩

structure TookId (K : Change → Prop) (s : Store) (mid : ℕ) (s' : Store) : Prop where
  moves : Moves K s s'
  id : mid = s.nextId
  next : s'.nextId = s.nextId + 1
  reserved : mid ≤ s'.reservedEnd
  map : SameMap s.db s'.db

theorem nextMessageId_ends (hK : ∀ n, K (.reserve n)) (hs : s.nextId ≤ s.reservedEnd + 1) :
    Ends (nextMessageId env) s (TookId K s) (Failed K env s) := by
  refine Ends.read_bind ?_
  have htake : ∀ t : Store, Moves K s t → t.nextId = s.nextId → s.nextId ≤ t.reservedEnd →
      SameMap s.db t.db →
      Ends (do Act.modify fun s' => { s' with nextId := s'.nextId + 1 }; return s.nextId : StoreM ℕ) t
        (TookId K s) (Failed K env s) := by
    intro t ht hnext hle hmap
    refine Ends.modify_bind (Ends.pure ?_)
    exact ⟨ht.tail (.takeId (by rwa [hnext])), rfl, by rw [← hnext], hle, hmap⟩
  dsimp only [id]
  split
  · next hgt =>
    refine check_bind (Failed.raises_refl (raises_admissible (by decide))) fun _ hend => ?_
    have hend : s.reservedEnd < int64Max - 4096 := by simpa [require_eq_ok] using hend
    have hfits : (Change.reserve (s.reservedEnd + 4096)).Fits s := ⟨by omega, Nat.le_add_right _ _⟩
    refine Ends.bind (write_ends (hK _) hfits) ?_
    rintro _ _ ⟨rfl, hp⟩
    refine Ends.modify_bind (htake _ ?_ rfl (by dsimp only; omega) ?_)
    · exact (Moves.refl s).tail (.written (hK _) hfits hp) |>.tail
        (.extend (lookup_step_put _ _ _) (Nat.le_add_right _ _))
    · intro k hk
      exact AList.lookup_insert_ne hk
  · next hgt => exact htake s (.refl s) rfl (by omega) (.refl _)

end TinyImx.Local
