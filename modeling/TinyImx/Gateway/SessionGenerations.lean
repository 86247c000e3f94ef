import TinyImx.Gateway.Session

/-!
# Session generations

The two maps of the session manager are inverse to each other in every run, and the session that is
current for a user and a connection is the one their last bind made.
-/

namespace TinyImx.Gateway.Session

open Function (update_apply update_of_ne)

variable {Conn : Type} [DecidableEq Conn] {name : Conn → String} {alive : Finset Conn}
  {m : Manager Conn} {w w' : World Conn}

/-! ## The last bind -/

/-- The last bind of `u` or of `c` in the log was the one of `u` and `c` that returned `epoch`, and
`c` was not unbound after it. -/
def LastBind : List (Entry Conn) → ℕ → Conn → ℕ → Prop
  | [], _, _, _ => False
  | .bound u' c' epoch' :: log, u, c, epoch =>
    (u = u' ∧ c = c' ∧ epoch = epoch') ∨ (u ≠ u' ∧ c ≠ c' ∧ LastBind log u c epoch)
  | .unbound c' :: log, u, c, epoch => c ≠ c' ∧ LastBind log u c epoch

def epochs (log : List (Entry Conn)) : List ℕ :=
  log.filterMap fun
    | .bound _ _ epoch => some epoch
    | .unbound _ => none

/-! ## The maps -/

structure Inverse (m : Manager Conn) : Prop where
  reverse : ∀ u record, m.userSessions u = some record →
    m.connectionSessions record.connectionKey = some ⟨u, record.epoch⟩
  owner : ∀ key reverse, m.connectionSessions key = some reverse →
    ∃ record, m.userSessions reverse.userId = some record ∧ record.connectionKey = key ∧
      record.epoch = reverse.epoch

omit [DecidableEq Conn] in
theorem Inverse.eraseBoth (h : Inverse m) {u : ℕ} {record : SessionRecord Conn}
    (hu : m.userSessions u = some record) :
    Inverse ((m.eraseConnection record.connectionKey).eraseUser u) where
  reverse u' record' hu' := by
    simp only [Manager.eraseUser, Manager.eraseConnection] at hu' ⊢
    have hne : u' ≠ u := by
      rintro rfl
      simp at hu'
    rw [update_of_ne hne] at hu'
    have hkey : record'.connectionKey ≠ record.connectionKey := by
      intro heq
      have := h.reverse u' record' hu'
      rw [heq, h.reverse u record hu] at this
      exact hne (congrArg ConnectionSessionRecord.userId (Option.some.inj this)).symm
    rw [update_of_ne hkey]
    exact h.reverse u' record' hu'
  owner key reverse hkey := by
    simp only [Manager.eraseUser, Manager.eraseConnection] at hkey ⊢
    have hne : key ≠ record.connectionKey := by
      rintro rfl
      simp at hkey
    rw [update_of_ne hne] at hkey
    obtain ⟨record', hu', hkey', hepoch⟩ := h.owner key reverse hkey
    have huser : reverse.userId ≠ u := by
      rintro rfl
      rw [hu] at hu'
      cases hu'
      exact hne hkey'.symm
    exact ⟨record', by rw [update_of_ne huser]; exact hu', hkey', hepoch⟩

theorem Inverse.clearUser_eq (h : Inverse m) (u : ℕ) (key : String) :
    (m.clearUser alive u key).2 = match m.userSessions u with
      | none => m
      | some record => (m.eraseConnection record.connectionKey).eraseUser u := by
  unfold Manager.clearUser
  cases hu : m.userSessions u with
  | none => rfl
  | some record => simp [h.reverse u record hu]

omit [DecidableEq Conn] in
theorem Inverse.clearConnection_eq (h : Inverse m) (key : String) :
    m.clearConnection key = match m.connectionSessions key with
      | none => m
      | some owner => (m.eraseConnection key).eraseUser owner.userId := by
  unfold Manager.clearConnection
  cases hkey : m.connectionSessions key with
  | none => rfl
  | some owner =>
    obtain ⟨record, hu, hrecord, hepoch⟩ := h.owner key owner hkey
    simp [hu, hrecord, hepoch, Manager.eraseUser, Manager.eraseConnection]

theorem Inverse.clearUser (h : Inverse m) (u : ℕ) (key : String) :
    Inverse (m.clearUser alive u key).2 := by
  rw [h.clearUser_eq]
  split
  · exact h
  · next record hu => exact h.eraseBoth hu

omit [DecidableEq Conn] in
theorem Inverse.clearConnection (h : Inverse m) (key : String) : Inverse (m.clearConnection key) := by
  rw [h.clearConnection_eq]
  split
  · exact h
  · next owner hkey =>
    obtain ⟨record, hu, rfl, -⟩ := h.owner key owner hkey
    exact h.eraseBoth hu

/-- The sessions that are left before a new generation is entered. -/
theorem Inverse.cleared (h : Inverse m) (u : ℕ) (key : String) (u' : ℕ) :
    ((m.clearUser alive u key).2.clearConnection key).userSessions u' =
      if u' = u ∨ ∃ record, m.userSessions u' = some record ∧ record.connectionKey = key then none
      else m.userSessions u' := by
  have husers : ∀ v, (m.clearUser alive u key).2.userSessions v =
      if v = u then none else m.userSessions v := by
    intro v
    rw [h.clearUser_eq]
    split
    · next hu =>
      simp_all
    · simp [Manager.eraseUser, Manager.eraseConnection, update_apply]
  have h' : Inverse (m.clearUser alive u key).2 := h.clearUser u key
  rw [h'.clearConnection_eq]
  split
  · next hnone =>
    rw [husers]
    by_cases hu' : u' = u
    · simp [hu']
    · rw [if_neg hu', if_neg]
      rintro (heq | ⟨record, hrecord, rfl⟩)
      · exact hu' heq
      · have := h'.reverse u' record (by rw [husers, if_neg hu', hrecord])
        rw [hnone] at this
        cases this
  · next owner hsome =>
    obtain ⟨record, hrecord, hkey, -⟩ := h'.owner key owner hsome
    simp only [Manager.eraseUser, Manager.eraseConnection, update_apply, husers] at hrecord ⊢
    by_cases howner : u' = owner.userId
    · grind
    · rw [if_neg howner]
      by_cases hu' : u' = u
      · simp [hu']
      · rw [if_neg hu', if_neg]
        rintro (heq | ⟨record', hrecord', hkey'⟩)
        · exact hu' heq
        · have := h'.reverse u' record' (by rw [husers, if_neg hu', hrecord'])
          simp_all

omit [DecidableEq Conn] in
theorem Inverse.enter (h : Inverse m) {u : ℕ} {c : Conn} {key : String} {epoch : ℕ}
    (hu : m.userSessions u = none) (hkey : m.connectionSessions key = none) :
    Inverse (m.enter u c key epoch) where
  reverse u' record hu' := by
    simp only [Manager.enter, update_apply] at hu' ⊢
    split at hu'
    · next heq =>
      cases hu'
      rw [if_pos rfl, heq]
    · have := h.reverse u' record hu'
      rw [if_neg]
      · exact this
      · rintro rfl
        rw [hkey] at this
        cases this
  owner key' reverse hkey' := by
    simp only [Manager.enter, update_apply] at hkey' ⊢
    split at hkey'
    · next heq =>
      cases hkey'
      exact ⟨⟨c, epoch, key⟩, if_pos rfl, heq.symm, rfl⟩
    · obtain ⟨record, hrecord, hrest⟩ := h.owner key' reverse hkey'
      refine ⟨record, ?_, hrest⟩
      rw [if_neg]
      · exact hrecord
      · intro heq
        rw [heq, hu] at hrecord
        cases hrecord

omit [DecidableEq Conn] in
theorem clearConnection_free (key : String) : (m.clearConnection key).connectionSessions key = none := by
  unfold Manager.clearConnection
  split
  · next hkey => exact hkey
  · simp [Manager.eraseConnection]

omit [DecidableEq Conn] in
theorem Inverse.allocateEpoch (h : Inverse m) : Inverse m.allocateEpoch.2 := ⟨h.reverse, h.owner⟩

omit [DecidableEq Conn] in
theorem allocateEpoch_ne_zero : m.allocateEpoch.1 ≠ 0 := by
  simp only [Manager.allocateEpoch]
  split
  · decide
  · next h => exact h

def Manager.cleared (m : Manager Conn) (alive : Finset Conn) (u : ℕ) (key : String) : Manager Conn :=
  (m.clearUser alive u key).2.clearConnection key

theorem bind_eq {u : ℕ} {c : Conn} (hu : u ≠ 0) (hname : name c ≠ "") :
    w.bind name u (some c) =
      { w with
        manager := (w.manager.cleared w.alive u (name c)).allocateEpoch.2.enter u c (name c)
          (w.manager.cleared w.alive u (name c)).allocateEpoch.1
        log := .bound u c (w.manager.cleared w.alive u (name c)).allocateEpoch.1 :: w.log } := by
  simp [World.bind, bindOrReplace, hu, hname, Manager.cleared]

/-! ## The invariant -/

structure Good (name : Conn → String) (w : World Conn) : Prop where
  inverse : Inverse w.manager
  record : ∀ u record, w.manager.userSessions u = some record → u ≠ 0 ∧ record.epoch ≠ 0 ∧
    record.connectionKey = name record.connection ∧ LastBind w.log u record.connection record.epoch
  current : ∀ c ∈ w.alive, ∀ u epoch, LastBind w.log u c epoch →
    w.manager.userSessions u = some ⟨c, epoch, name c⟩
  names : ∀ c ∈ w.alive, ∀ d ∈ w.alive, name c = name d → c = d
  alive : w.alive ⊆ w.created
  logged : ∀ u c epoch, LastBind w.log u c epoch → c ∈ w.created

theorem Good.bind (h : Good name w) {u : ℕ} {c : Conn} (hu : u ≠ 0) (hname : name c ≠ "")
    (hc : c ∈ w.alive) : Good name (w.bind name u (some c)) := by
  rw [bind_eq hu hname]
  have hsessions : ∀ u', (w.manager.cleared w.alive u (name c)).userSessions u' = _ :=
    h.inverse.cleared u (name c)
  have hfree : (w.manager.cleared w.alive u (name c)).userSessions u = none := by
    rw [hsessions, if_pos (.inl rfl)]
  refine ⟨?_, fun u' record hu' => ?_, fun c' hc' u' epoch' hlast => ?_, h.names, h.alive,
    fun u' c' epoch' hlast => ?_⟩
  · have hcleared := ((h.inverse.clearUser u (name c)).clearConnection (name c) :
      Inverse (w.manager.cleared w.alive u (name c)))
    exact hcleared.allocateEpoch.enter hfree (clearConnection_free _)
  · simp only [Manager.enter, update_apply] at hu'
    split at hu'
    · next heq =>
      cases hu'
      exact ⟨heq ▸ hu, allocateEpoch_ne_zero, rfl, .inl ⟨heq, rfl, rfl⟩⟩
    · next hne =>
      change (w.manager.cleared w.alive u (name c)).userSessions u' = some record at hu'
      rw [hsessions] at hu'
      split at hu'
      · cases hu'
      · next hkept =>
        obtain ⟨hzero, hepoch, hkey, hlast⟩ := h.record u' record hu'
        refine ⟨hzero, hepoch, hkey, .inr ⟨hne, fun heq => hkept ?_, hlast⟩⟩
        exact .inr ⟨record, hu', by rw [hkey, heq]⟩
  · rcases hlast with ⟨rfl, rfl, rfl⟩ | ⟨hne, hcne, hlast⟩
    · simp [Manager.enter]
    · have hold := h.current c' hc' u' epoch' hlast
      simp only [Manager.enter, update_apply, if_neg hne]
      change (w.manager.cleared w.alive u (name c)).userSessions u' = _
      rw [hsessions, if_neg, hold]
      rintro (heq | ⟨record, hrecord, hkey⟩)
      · exact hne heq
      · rw [hold] at hrecord
        cases hrecord
        exact hcne (h.names c' hc' c hc hkey)
  · rcases hlast with ⟨rfl, rfl, rfl⟩ | ⟨-, -, hlast⟩
    · exact h.alive hc
    · exact h.logged u' c' epoch' hlast

theorem Good.unbind_cases (h : Good name w) {c : Conn} (hc : c ∈ w.alive) :
    w.unbind name (some c) = w ∨
      ∃ u record, w.manager.userSessions u = some record ∧ record.connectionKey = name c ∧
        ((record.connection = c ∧ w.unbind name (some c) =
            { w with manager := (w.manager.eraseConnection (name c)).eraseUser u
                     log := .unbound c :: w.log }) ∨
          (record.connection ∉ w.alive ∧ w.unbind name (some c) =
            { w with manager := (w.manager.eraseConnection (name c)).eraseUser u })) := by
  simp only [World.unbind, unbindIfCurrent]
  by_cases hname : name c = ""
  · left
    simp [hname]
  cases hreverse : w.manager.connectionSessions (name c) with
  | none =>
    left
    simp [hname]
  | some reverse =>
    obtain ⟨record, hrecord, hkey, hepoch⟩ := h.inverse.owner _ _ hreverse
    refine .inr ⟨reverse.userId, record, hrecord, hkey, ?_⟩
    by_cases halive : record.connection ∈ w.alive
    · have hsame : record.connection = c :=
        h.names _ halive _ hc ((h.record _ _ hrecord).2.2.1.symm.trans hkey)
      left
      simp [hname, hrecord, hkey, hepoch, lock, hsame, hc]
    · right
      simp [hname, hrecord, hkey, hepoch, lock, halive]

theorem Good.unbind (h : Good name w) {c : Conn} (hc : c ∈ w.alive) :
    Good name (w.unbind name (some c)) := by
  rcases h.unbind_cases hc with heq | ⟨u, record, hrecord, hkey, ⟨rfl, heq⟩ | ⟨hdead, heq⟩⟩
  · rwa [heq]
  all_goals
    rw [heq]
    have hinverse := h.inverse.eraseBoth hrecord
    rw [hkey] at hinverse
  · refine ⟨hinverse, fun u' record' hu' => ?_, fun c' hc' u' epoch hlast => ?_, h.names, h.alive,
      fun u' c' epoch hlast => h.logged u' c' epoch hlast.2⟩
    · simp only [Manager.eraseUser, Manager.eraseConnection, update_apply] at hu'
      split at hu'
      · cases hu'
      · next hne =>
        obtain ⟨hzero, hepoch, hkey', hlast⟩ := h.record u' record' hu'
        refine ⟨hzero, hepoch, hkey', fun hsame => hne ?_, hlast⟩
        have hreverse := h.inverse.reverse u' record' hu'
        rw [hkey', hsame, ← hkey, h.inverse.reverse u record hrecord] at hreverse
        exact (congrArg ConnectionSessionRecord.userId (Option.some.inj hreverse)).symm
    · have hold := h.current c' hc' u' epoch hlast.2
      simp only [Manager.eraseUser, Manager.eraseConnection, update_apply]
      rw [if_neg, hold]
      rintro rfl
      rw [hrecord] at hold
      cases hold
      exact hlast.1 rfl
  · refine ⟨hinverse, fun u' record' hu' => ?_, fun c' hc' u' epoch hlast => ?_, h.names, h.alive,
      h.logged⟩
    · simp only [Manager.eraseUser, Manager.eraseConnection, update_apply] at hu'
      split at hu'
      · cases hu'
      · exact h.record u' record' hu'
    · have hold := h.current c' hc' u' epoch hlast
      simp only [Manager.eraseUser, Manager.eraseConnection, update_apply]
      grind

theorem Good.step (h : Good name w) (hs : Step name w w') : Good name w' := by
  cases hs with
  | @create c hnew hnames =>
    refine ⟨h.inverse, h.record, fun c' hc' u epoch hlast => ?_, fun c' hc' d hd heq => ?_,
      Finset.insert_subset_insert c h.alive,
      fun u c' epoch hlast => Finset.mem_insert_of_mem (h.logged u c' epoch hlast)⟩
    · rcases Finset.mem_insert.1 hc' with rfl | hc'
      · exact absurd (h.logged u c' epoch hlast) hnew
      · exact h.current c' hc' u epoch hlast
    · rcases Finset.mem_insert.1 hc' with hc₁ | hc₁ <;> rcases Finset.mem_insert.1 hd with hd₁ | hd₁
      · rw [hc₁, hd₁]
      · exact absurd (hc₁ ▸ heq).symm (hnames d hd₁)
      · exact absurd (hd₁ ▸ heq) (hnames c' hc₁)
      · exact h.names c' hc₁ d hd₁ heq
  | expire c =>
    have hsub := Finset.erase_subset c w.alive
    exact ⟨h.inverse, h.record, fun c' hc' => h.current c' (hsub hc'),
      fun c' hc' d hd => h.names c' (hsub hc') d (hsub hd), hsub.trans h.alive, h.logged⟩
  | bind u connection halive =>
    cases connection with
    | none => exact h
    | some c =>
      by_cases hok : u = 0 ∨ name c = ""
      · simpa [World.bind, bindOrReplace, hok] using h
      · exact h.bind (fun hu => hok (.inl hu)) (fun hn => hok (.inr hn)) (halive c rfl)
  | unbind connection halive =>
    cases connection with
    | none => exact h
    | some c => exact h.unbind (halive c rfl)

omit [DecidableEq Conn] in
theorem start_good : Good name start where
  inverse :=
    { reverse := fun _ _ h => by cases h
      owner := fun _ _ h => by cases h }
  record _ _ h := by cases h
  current _ hc := by cases hc
  names _ hc := by cases hc
  alive := Finset.Subset.refl _
  logged _ _ _ h := h.elim

theorem Good.run (hrun : Relation.ReflTransGen (Step name) start w) : Good name w := by
  induction hrun with
  | refl => exact start_good
  | tail _ hs ih => exact ih.step hs

/-! ## Epochs -/

def Counted (w : World Conn) : Prop :=
  (epochs w.log).length < 2 ^ 64 → (∀ epoch ∈ epochs w.log, 0 < epoch ∧ epoch ≤ (epochs w.log).length) ∧
    (epochs w.log).Pairwise (· > ·) ∧
    ((epochs w.log).length + 1 < 2 ^ 64 → w.manager.nextEpoch = (epochs w.log).length + 1)

theorem nextEpoch_cleared (u : ℕ) (key : String) :
    (m.cleared alive u key).nextEpoch = m.nextEpoch := by
  have huser : ((m.clearUser alive u key).2).nextEpoch = m.nextEpoch := by
    unfold Manager.clearUser
    split
    · rfl
    · simp only [Manager.eraseUser, Manager.eraseConnection]
      split
      · split <;> rfl
      · rfl
  unfold Manager.cleared Manager.clearConnection
  split
  · exact huser
  · simp only [Manager.eraseUser, Manager.eraseConnection]
    split
    · split <;> exact huser
    · exact huser

theorem Counted.step (h : Counted w) (hg : Good name w) (hs : Step name w w') : Counted w' := by
  cases hs with
  | create _ _ => exact h
  | expire c => exact h
  | bind u connection halive =>
    cases connection with
    | none => exact h
    | some c =>
      by_cases hok : u = 0 ∨ name c = ""
      · simpa [World.bind, bindOrReplace, hok] using h
      · rw [bind_eq (fun hu => hok (.inl hu)) (fun hn => hok (.inr hn))]
        intro hlen
        simp only [epochs, List.filterMap_cons, List.length_cons] at hlen
        obtain ⟨hbound, hsorted, hnext⟩ := h (by simp only [epochs]; omega)
        have hepoch : (w.manager.cleared w.alive u (name c)).allocateEpoch.1 =
            (epochs w.log).length + 1 := by
          simp [Manager.allocateEpoch, nextEpoch_cleared, hnext hlen]
        rw [hepoch]
        refine ⟨fun epoch hmem => ?_, List.pairwise_cons.2 ⟨fun epoch hmem => ?_, hsorted⟩,
          fun hlen' => ?_⟩
        · rcases List.mem_cons.1 hmem with rfl | hmem
          · exact ⟨Nat.succ_pos _, le_rfl⟩
          · exact ⟨(hbound epoch hmem).1, Nat.le_succ_of_le (hbound epoch hmem).2⟩
        · exact Nat.lt_succ_of_le (hbound epoch hmem).2
        · simp only [epochs, List.filterMap_cons, List.length_cons] at hlen' hnext ⊢
          simp only [Manager.enter, Manager.allocateEpoch, nextEpoch_cleared, hnext hlen]
          rw [if_neg (Nat.succ_ne_zero _), Nat.mod_eq_of_lt hlen', if_neg (Nat.succ_ne_zero _)]
  | unbind connection halive =>
    cases connection with
    | none => exact h
    | some c =>
      rcases hg.unbind_cases (halive c rfl) with heq | ⟨u, record, -, -, ⟨-, heq⟩ | ⟨-, heq⟩⟩
      · rwa [heq]
      · rw [heq]
        exact h
      · rw [heq]
        exact h

theorem Counted.run (hrun : Relation.ReflTransGen (Step name) start w) : Counted w := by
  induction hrun with
  | refl => exact fun _ => ⟨by simp [epochs, start], by simp [epochs, start], fun _ => rfl⟩
  | tail hrun hs ih => exact ih.step (Good.run hrun) hs

/-! ## Generations -/

theorem isCurrent_iff {u epoch : ℕ} {c : Conn} (hc : c ∈ alive) :
    isCurrent name alive u epoch (some c) m = true ↔
      u ≠ 0 ∧ epoch ≠ 0 ∧ m.userSessions u = some ⟨c, epoch, name c⟩ := by
  unfold isCurrent
  by_cases hzero : u = 0 ∨ epoch = 0
  · simp only [hzero, if_true]
    tauto
  rw [not_or] at hzero
  cases hu : m.userSessions u with
  | none => simp [hzero]
  | some record =>
    obtain ⟨d, epoch', key⟩ := record
    have hlock : lock alive d = some c ↔ d = c := by
      unfold lock
      grind
    grind

def sampleName : ℕ → String := fun _ => "peer"

def sampleBound : World ℕ :=
  { (start : World ℕ) with alive := {0}, created := {0} }.bind sampleName 5 (some 0)

theorem sampleBound_reachable : Relation.ReflTransGen (Step sampleName) start sampleBound := by
  have hcreate : Step sampleName start { (start : World ℕ) with alive := {0}, created := {0} } :=
    .create (c := 0) (Finset.notMem_empty 0) (by simp [start])
  have hbind : Step sampleName { (start : World ℕ) with alive := {0}, created := {0} } sampleBound :=
    .bind 5 (some 0) (by simp)
  exact .tail (.single hcreate) hbind

def sampleReused : World ℕ := { sampleBound with alive := {1}, created := {1, 0} }

end TinyImx.Gateway.Session
