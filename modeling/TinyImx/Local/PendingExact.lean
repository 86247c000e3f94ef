import TinyImx.Local.Pending

/-!
# The pending count is exact

Every id is claimed by at most one call in flight: prepared by a writer, or on its way off `E/` under
its lock.  With that, the counter is the number of pending events, of slots whose batch is not
written and of removals that have not been subtracted, and the index holds the pending events.
-/

namespace TinyImx.Local.Pending

open Multiset (filterMap_cons_none map_singleton mem_add mem_cons mem_cons_of_mem mem_cons_self
  mem_map mem_toFinset nodup_cons notMem_zero singleton_inj singleton_ne_zero sum_add
  sum_singleton)
open Finset (disjoint_left disjoint_right mem_inter mem_sdiff mem_union subset_insert union_subset)

variable {Id : Type} [DecidableEq Id] {o : BookOptions Id} {b b' : Book Id}

/-! ## Claims -/

section

variable {slots : Multiset (Slot Id)} {id : Id} {entry : Option ℕ}

omit [DecidableEq Id]

@[simp] theorem preparedIds_zero : preparedIds (0 : Multiset (Slot Id)) = 0 := rfl

@[simp] theorem preparedIds_reserved : preparedIds (.reserved ::ₘ slots) = preparedIds slots :=
  filterMap_cons_none _ _ rfl

@[simp] theorem preparedIds_refused : preparedIds (.refused ::ₘ slots) = preparedIds slots :=
  filterMap_cons_none _ _ rfl

@[simp] theorem preparedIds_dropped : preparedIds (.dropped ::ₘ slots) = preparedIds slots :=
  filterMap_cons_none _ _ rfl

@[simp] theorem preparedIds_written :
    preparedIds (.written id entry ::ₘ slots) = preparedIds slots :=
  filterMap_cons_none _ _ rfl

@[simp] theorem preparedIds_prepared :
    preparedIds (.prepared id entry ::ₘ slots) = id ::ₘ preparedIds slots :=
  Multiset.filterMap_cons_some _ _ _ rfl

theorem mem_preparedIds : id ∈ preparedIds slots ↔ ∃ entry, .prepared id entry ∈ slots := by
  rw [preparedIds, Multiset.mem_filterMap]
  constructor
  · rintro ⟨slot, hslot, hid⟩
    cases slot with
    | prepared id' entry =>
      cases hid
      exact ⟨entry, hslot⟩
    | _ => cases hid
  · rintro ⟨entry, hslot⟩
    exact ⟨_, hslot, rfl⟩

theorem preparedIds_map_write : preparedIds (slots.map Slot.write) = 0 := by
  refine Multiset.eq_zero_of_forall_notMem fun id hid => ?_
  obtain ⟨entry, hslot⟩ := mem_preparedIds.1 hid
  obtain ⟨slot, -, hwrite⟩ := mem_map.1 hslot
  cases slot <;> cases hwrite

end

def Removal.ids : Removal Id → Finset Id
  | started => ∅
  | collected ids | removed ids | unindexed ids => ids

def Removal.before : Removal Id → Bool
  | started | collected _ => true
  | removed _ | unindexed _ => false

def Worker.claims : Worker Id → Finset Id
  | writer _ _ slots => (preparedIds slots).toFinset
  | remover _ _ phase => phase.ids

def Separate (t u : Worker Id) : Prop := Disjoint t.locks u.locks ∧ Disjoint t.claims u.claims

variable {t : Worker Id}

theorem Separate.symm {u : Worker Id} (h : Separate t u) : Separate u t := ⟨h.1.symm, h.2.symm⟩

def Known (b : Book Id) : Prop := b.events ⊆ b.taken ∧ b.failed ⊆ b.taken

def Fine (o : BookOptions Id) (b : Book Id) : Worker Id → Prop
  | .writer q l slots => (preparedIds slots).Nodup ∧
      (∀ id ∈ preparedIds slots, id ∈ b.taken ∧ id ∉ b.events ∧
        if q then id ∈ b.failed ∧ o.stripe id ∈ l else id ∉ b.failed) ∧
      ∀ id entry, .prepared id entry ∈ slots → o.indexed = true →
        ∃ n, entry = some n ∧ b.index id = some n
  | .remover _ l phase => ∀ id ∈ phase.ids, id ∈ b.taken ∧ o.stripe id ∈ l ∧
      (id ∈ b.events ↔ phase.before = true)

theorem Fine.frame (h : Fine o b t) (htaken : b.taken ⊆ b'.taken)
    (hsame : ∀ id ∈ t.claims, (id ∈ b'.events ↔ id ∈ b.events) ∧ (id ∈ b'.failed ↔ id ∈ b.failed) ∧
      b'.index id = b.index id) : Fine o b' t := by
  cases t with
  | writer q l slots =>
    obtain ⟨hnodup, hids, hentry⟩ := h
    refine ⟨hnodup, fun id hid => ?_, fun id entry hslot ho => ?_⟩
    · obtain ⟨hE, hF, -⟩ := hsame id (mem_toFinset.2 hid)
      rw [hE, hF]
      exact ⟨htaken (hids id hid).1, (hids id hid).2⟩
    · obtain ⟨-, -, hindex⟩ := hsame id (mem_toFinset.2 (mem_preparedIds.2 ⟨entry, hslot⟩))
      rw [hindex]
      exact hentry id entry hslot ho
  | remover f l phase =>
    intro id hid
    obtain ⟨hT, hl, hbefore⟩ := h id hid
    rw [(hsame id hid).1]
    exact ⟨htaken hT, hl, hbefore⟩

variable {rest : Multiset (Worker Id)}

/-- A step changes the keys and the index at the ids of its call only. -/
theorem Act.agree {new : Multiset (Worker Id)} (h : Act o b rest t b' new) :
    b.taken ⊆ b'.taken ∧ ∀ id, id ∉ t.claims → (∀ t', new = {t'} → id ∉ t'.claims) →
      (id ∈ b'.events ↔ id ∈ b.events) ∧ (id ∈ b'.failed ↔ id ∈ b.failed) ∧
        b'.index id = b.index id := by
  cases h with
  | @prepare q l slots id hnamed hindex =>
    refine ⟨subset_insert _ _, fun id' _ hid' => ⟨Iff.rfl, Iff.rfl, ?_⟩⟩
    have hne : id' ≠ id := by
      rintro rfl
      exact hid' _ rfl (by simp [Worker.claims])
    simp only [Book.prepare]
    grind
  | refuse hnamed ho hindex =>
    exact ⟨subset_insert _ _, fun _ _ _ => ⟨Iff.rfl, Iff.rfl, rfl⟩⟩
  | @drop q l slots slot hslot =>
    have hdrop : (b.dropEntry slot).taken = b.taken ∧ (b.dropEntry slot).events = b.events ∧
        (b.dropEntry slot).failed = b.failed := by
      unfold Book.dropEntry
      grind
    rw [hdrop.1, hdrop.2.1, hdrop.2.2]
    refine ⟨Finset.Subset.refl _, fun id hid _ => ⟨Iff.rfl, Iff.rfl, ?_⟩⟩
    unfold Book.dropEntry
    split
    · next id' entry =>
      split
      · refine Function.update_of_ne ?_ _ _
        rintro rfl
        exact hid (by simp [Worker.claims])
      · rfl
    · rfl
  | @write q l slots hslots =>
    refine ⟨Finset.Subset.refl _, fun id hid _ => ⟨?_, ?_, rfl⟩⟩
    · have hid' : id ∉ (preparedIds slots).toFinset := hid
      simp only [Book.write, mem_union, hid', or_false]
    · have hid' : id ∉ (preparedIds slots).toFinset := hid
      simp only [Book.write]
      split
      · simp only [mem_sdiff, hid', not_false_eq_true, and_true]
      · rfl
  | @remove f l ids =>
    refine ⟨Finset.Subset.refl _, fun id hid _ => ⟨?_, ?_, rfl⟩⟩
    · have hid' : id ∉ ids := hid
      simp only [Book.remove, mem_sdiff, hid', not_false_eq_true, and_true]
    · have hid' : id ∉ ids := hid
      simp only [Book.remove]
      split
      · simp only [mem_union, hid', or_false]
      · rfl
  | @unindex f l ids =>
    refine ⟨Finset.Subset.refl _, fun id hid _ => ⟨Iff.rfl, Iff.rfl, ?_⟩⟩
    have hid' : id ∉ ids := hid
    simp only [Book.unindex, hid', and_false, if_false]
  | _ => exact ⟨Finset.Subset.refl _, fun _ _ _ => ⟨Iff.rfl, Iff.rfl, rfl⟩⟩

/-- A call stays apart from the others: the only new claims are a prepared id and the ids a removal
has seen pending. -/
theorem Act.separate {t' : Worker Id} (h : Act o b rest t b' {t'})
    (ht : Fine o b t) (hrest : ∀ u ∈ rest, Fine o b u) (hsep : ∀ u ∈ rest, Separate t u) :
    ∀ u ∈ rest, Separate t' u := by
  intro u hu
  have hR := hsep u hu
  have hfewer : t'.locks = t.locks → t'.claims ⊆ t.claims → Separate t' u := by
    intro hlocks hclaims
    refine ⟨by rw [hlocks]; exact hR.1, Finset.disjoint_of_subset_left hclaims hR.2⟩
  generalize hnew : ({t'} : Multiset (Worker Id)) = new at h
  cases h with
  | @prepare q l slots id hnamed hindex =>
    obtain rfl := singleton_inj.1 hnew
    refine ⟨hR.1, ?_⟩
    have hclaims : (Worker.writer q l (.prepared id (if o.indexed then some b.allocated else none) ::ₘ
        slots)).claims = insert id (preparedIds slots).toFinset := by
      simp [Worker.claims]
    rw [hclaims, Finset.disjoint_insert_left]
    refine ⟨fun hid => ?_, by simpa [Worker.claims] using hR.2⟩
    have hfine := hrest u hu
    cases q with
    | false =>
      -- a new id is not given yet, and every claimed id is
      refine hnamed ?_
      cases u with
      | writer q' l' slots' => exact (hfine.2.1 id (mem_toFinset.1 hid)).1
      | remover f l' phase => exact (hfine id hid).1
    | true =>
      obtain ⟨hF, -, hl, -⟩ := hnamed
      have hlocked : o.stripe id ∉ u.locks := fun hl' => disjoint_left.1 hR.1 hl hl'
      cases u with
      | writer q' l' slots' =>
        have hother := (hfine.2.1 id (mem_toFinset.1 hid)).2.2
        cases q' with
        | false => exact hother hF
        | true => exact hlocked hother.2
      | remover f l' phase => exact hlocked (hfine id hid).2.1
  | @collect f l ids hids =>
    obtain rfl := singleton_inj.1 hnew
    refine ⟨hR.1, disjoint_left.2 fun id hid hid' => ?_⟩
    obtain ⟨hids', hE⟩ := mem_inter.1 hid
    have hfine := hrest u hu
    cases u with
    | writer q' l' slots' => exact (hfine.2.1 id (mem_toFinset.1 hid')).2.1 hE
    | remover f l' phase =>
      exact disjoint_left.1 hR.1 (hids id hids') (hfine id hid').2.1
  | reserve _ =>
    obtain rfl := singleton_inj.1 hnew
    exact hfewer rfl (by simp [Worker.claims])
  | refuse _ _ _ =>
    obtain rfl := singleton_inj.1 hnew
    exact hfewer rfl (by simp [Worker.claims])
  | @drop q l slots slot hslot =>
    obtain rfl := singleton_inj.1 hnew
    refine hfewer rfl ?_
    cases slot with
    | prepared id entry => simp [Worker.claims]
    | _ => simp [Worker.claims]
  | giveBack =>
    obtain rfl := singleton_inj.1 hnew
    exact hfewer rfl (by simp [Worker.claims])
  | write _ =>
    obtain rfl := singleton_inj.1 hnew
    exact hfewer rfl (by simp [Worker.claims, preparedIds_map_write])
  | commit =>
    obtain rfl := singleton_inj.1 hnew
    exact hfewer rfl (by simp [Worker.claims])
  | remove =>
    obtain rfl := singleton_inj.1 hnew
    exact hfewer rfl (by simp [Worker.claims, Removal.ids])
  | unindex =>
    obtain rfl := singleton_inj.1 hnew
    exact hfewer rfl (by simp [Worker.claims, Removal.ids])
  | written => exact absurd hnew (singleton_ne_zero t')
  | subtract => exact absurd hnew (singleton_ne_zero t')
  | quit _ => exact absurd hnew (singleton_ne_zero t')

theorem Act.known {new : Multiset (Worker Id)} (h : Act o b rest t b' new)
    (hb : Known b) (ht : Fine o b t) : Known b' := by
  cases h with
  | prepare _ _ => exact ⟨hb.1.trans (subset_insert _ _), hb.2.trans (subset_insert _ _)⟩
  | refuse _ _ _ =>
    exact ⟨hb.1.trans (subset_insert _ _), hb.2.trans (subset_insert _ _)⟩
  | @drop q l slots slot _ =>
    unfold Book.dropEntry
    split
    · split
      · exact hb
      · exact hb
    · exact hb
  | write _ =>
    refine ⟨union_subset hb.1 fun id hid => ?_, ?_⟩
    · exact (ht.2.1 id (mem_toFinset.1 hid)).1
    · simp only [Book.write]
      split
      · exact Finset.sdiff_subset.trans hb.2
      · exact hb.2
  | remove =>
    refine ⟨Finset.sdiff_subset.trans hb.1, ?_⟩
    simp only [Book.remove]
    split
    · exact union_subset hb.2 fun id hid => (ht id hid).1
    · exact hb.2
  | _ => exact hb

/-- A call knows about its ids what it has to know, after each of its steps. -/
theorem Act.fine {t' : Worker Id} (h : Act o b rest t b' {t'})
    (hb : Known b) (ht : Fine o b t) : Fine o b' t' := by
  generalize hnew : ({t'} : Multiset (Worker Id)) = new at h
  cases h with
  | reserve _ =>
    obtain rfl := singleton_inj.1 hnew
    simpa [Fine] using ht
  | @prepare q l slots id hnamed hindex =>
    obtain rfl := singleton_inj.1 hnew
    obtain ⟨hnodup, hids, hentry⟩ := ht
    simp only [preparedIds_reserved] at hnodup hids
    have hfresh : id ∉ preparedIds slots := by
      cases q with
      | false => exact fun hid => hnamed (hids id hid).1
      | true => exact hnamed.2.2.2
    refine ⟨by simpa using ⟨hfresh, hnodup⟩, fun id' hid' => ?_, fun id' entry hslot ho => ?_⟩
    · rw [preparedIds_prepared] at hid'
      rcases mem_cons.1 hid' with rfl | hid'
      · refine ⟨Finset.mem_insert_self _ _, ?_⟩
        cases q with
        | false => exact ⟨fun hE => hnamed (hb.1 hE), fun hF => hnamed (hb.2 hF)⟩
        | true => exact ⟨hnamed.2.1, hnamed.1, hnamed.2.2.1⟩
      · exact ⟨Finset.mem_insert_of_mem (hids id' hid').1, (hids id' hid').2⟩
    · simp only [Book.prepare, ho, if_true] at hslot ⊢
      rcases mem_cons.1 hslot with heq | hmem
      · simp_all
      · have hne : id' ≠ id := by
          rintro rfl
          exact hfresh (mem_preparedIds.2 ⟨entry, hmem⟩)
        rw [Function.update_of_ne hne]
        exact hentry id' entry (mem_cons_of_mem hmem) ho
  | refuse _ _ _ =>
    obtain rfl := singleton_inj.1 hnew
    obtain ⟨hnodup, hids, hentry⟩ := ht
    refine ⟨by simpa using hnodup, fun id hid => ?_, fun id entry hslot ho => ?_⟩
    · simp only [preparedIds_refused, preparedIds_reserved] at hid hids
      exact ⟨Finset.mem_insert_of_mem (hids id hid).1, (hids id hid).2⟩
    · exact hentry id entry (by simpa using hslot) ho
  | @drop q l slots slot hslot =>
    obtain rfl := singleton_inj.1 hnew
    obtain ⟨hnodup, hids, hentry⟩ := ht
    have hsub : ∀ id ∈ preparedIds slots, id ∈ preparedIds (slot ::ₘ slots) := by
      intro id hid
      obtain ⟨entry, hmem⟩ := mem_preparedIds.1 hid
      exact mem_preparedIds.2 ⟨entry, mem_cons_of_mem hmem⟩
    have hrest : Fine o b (.writer q l (.dropped ::ₘ slots)) := by
      refine ⟨?_, fun id hid => ?_, fun id entry hmem ho => ?_⟩
      · rw [preparedIds_dropped]
        cases slot with
        | prepared id entry => exact (nodup_cons.1 (by simpa using hnodup)).2
        | _ => simpa using hnodup
      · exact hids id (hsub id (by simpa using hid))
      · exact hentry id entry (mem_cons_of_mem (by simpa using hmem)) ho
    -- the entry that is erased belongs to none of the slots that are left
    unfold Book.dropEntry
    split
    · next id' n =>
      split
      · refine hrest.frame (Finset.Subset.refl _) fun id hid => ⟨Iff.rfl, Iff.rfl, ?_⟩
        refine Function.update_of_ne ?_ _ _
        rintro rfl
        have hmem : id ∈ preparedIds slots := by simpa [Worker.claims] using hid
        exact (nodup_cons.1 (by simpa using hnodup)).1 hmem
      · exact hrest
    · exact hrest
  | giveBack =>
    obtain rfl := singleton_inj.1 hnew
    simpa [Fine] using ht
  | @write q l slots _ =>
    obtain rfl := singleton_inj.1 hnew
    refine ⟨by simp [preparedIds_map_write], by simp [preparedIds_map_write], fun id entry hslot => ?_⟩
    have hid : id ∈ preparedIds (slots.map Slot.write) := mem_preparedIds.2 ⟨entry, hslot⟩
    rw [preparedIds_map_write] at hid
    exact absurd hid (notMem_zero id)
  | commit =>
    obtain rfl := singleton_inj.1 hnew
    simpa [Fine] using ht
  | collect ids hids =>
    obtain rfl := singleton_inj.1 hnew
    intro id hid
    obtain ⟨hid, hE⟩ := mem_inter.1 hid
    exact ⟨hb.1 hE, hids id hid, by simp [Removal.before, hE]⟩
  | @remove f l ids =>
    obtain rfl := singleton_inj.1 hnew
    intro id hid
    obtain ⟨hT, hl, -⟩ := ht id hid
    have hid' : id ∈ ids := hid
    exact ⟨hT, hl, by simpa [Book.remove, Removal.before] using fun _ => hid'⟩
  | unindex =>
    obtain rfl := singleton_inj.1 hnew
    exact ht
  | written => exact absurd hnew (singleton_ne_zero t')
  | subtract => exact absurd hnew (singleton_ne_zero t')
  | quit _ => exact absurd hnew (singleton_ne_zero t')

theorem Spawn.fine {ts : Multiset (Worker Id)} (h : Spawn b ts t) :
    Fine o b t ∧ ∀ u ∈ ts, Separate t u := by
  cases h with
  | create =>
    exact ⟨⟨by simp, by simp, by simp⟩, fun u _ => ⟨Finset.disjoint_empty_left _,
      by simp [Worker.claims]⟩⟩
  | requeue hlocks =>
    exact ⟨⟨by simp, by simp, by simp⟩, fun u hu => ⟨hlocks u hu, by simp [Worker.claims]⟩⟩
  | remove hlocks =>
    exact ⟨by simp [Fine, Removal.ids], fun u hu => ⟨hlocks u hu, by simp [Worker.claims,
      Removal.ids]⟩⟩

theorem Act.new {new : Multiset (Worker Id)} (h : Act o b rest t b' new) :
    new = 0 ∨ ∃ t', new = {t'} := by
  cases h with
  | written => exact .inl rfl
  | subtract => exact .inl rfl
  | quit _ => exact .inl rfl
  | _ => exact .inr ⟨_, rfl⟩

def Orderly (o : BookOptions Id) : Pool (Book Id) (Worker Id) → Prop :=
  Pool.Good Known (Fine o) Separate

theorem Orderly.step {p p' : Pool (Book Id) (Worker Id)} (h : Orderly o p) (hs : Step o p p') :
    Orderly o p' := by
  refine Pool.Good.step (fun _ _ hR => hR.symm) ?_ (fun b ts t _ _ hsp => hsp.fine) h hs
  intro b rest t b' new hb ht hrest hR hact
  obtain ⟨htaken, hagree⟩ := hact.agree
  rcases hact.new with rfl | ⟨t', rfl⟩
  · refine ⟨hact.known hb ht, fun u hu => (hrest u hu).frame htaken fun id hid => ?_, .inl rfl⟩
    exact hagree id (disjoint_right.1 (hR u hu).2 hid) fun t' ht' =>
      absurd ht'.symm (singleton_ne_zero t')
  · have hsep := hact.separate ht hrest hR
    refine ⟨hact.known hb ht, fun u hu => (hrest u hu).frame htaken fun id hid => ?_,
      .inr ⟨t', rfl, hact.fine hb ht, hsep⟩⟩
    refine hagree id (disjoint_right.1 (hR u hu).2 hid) fun t'' ht'' => ?_
    obtain rfl := singleton_inj.1 ht''
    exact disjoint_right.1 (hsep u hu).2 hid

/-! ## The count -/

def openSlots (slots : Multiset (Slot Id)) : ℕ := slots.countP fun slot => slot.unwritten = true

def Worker.weight : Worker Id → ℕ
  | writer _ _ slots => openSlots slots
  | remover _ _ phase => if phase.before then 0 else phase.ids.card

def unwrittenSlots (ts : Multiset (Worker Id)) : ℕ :=
  (ts.map fun
    | .writer _ _ slots => openSlots slots
    | .remover .. => 0).sum

def unsubtracted (ts : Multiset (Worker Id)) : ℕ :=
  (ts.map fun
    | .writer .. => 0
    | .remover _ _ phase => if phase.before then 0 else phase.ids.card).sum

section

variable {slots : Multiset (Slot Id)}

omit [DecidableEq Id]

theorem sum_weight (ts : Multiset (Worker Id)) :
    (ts.map Worker.weight).sum = unwrittenSlots ts + unsubtracted ts := by
  rw [unwrittenSlots, unsubtracted, ← Multiset.sum_map_add]
  congr 1
  refine Multiset.map_congr rfl fun t _ => ?_
  cases t with
  | writer q l slots => rfl
  | remover f l phase => simp [Worker.weight]

@[simp] theorem openSlots_zero : openSlots (0 : Multiset (Slot Id)) = 0 := rfl

theorem openSlots_cons {slot : Slot Id} (h : slot.unwritten = true) :
    openSlots (slot ::ₘ slots) = openSlots slots + 1 :=
  Multiset.countP_cons_of_pos (p := fun slot : Slot Id => slot.unwritten = true) slots h

theorem openSlots_written {id : Id} {entry : Option ℕ} :
    openSlots (.written id entry ::ₘ slots) = openSlots slots :=
  Multiset.countP_cons_of_neg (p := fun slot : Slot Id => slot.unwritten = true) slots
    (by simp [Slot.unwritten])

theorem card_preparedIds (h : ∀ slot ∈ slots, slot.preparedId.isSome) :
    (preparedIds slots).card = openSlots slots := by
  induction slots using Multiset.induction_on with
  | empty => rfl
  | cons slot slots ih =>
    have hslots := ih fun slot' hslot' => h slot' (mem_cons_of_mem hslot')
    have hslot := h slot (mem_cons_self slot slots)
    cases slot with
    | prepared id entry =>
      rw [preparedIds_prepared, Multiset.card_cons, hslots, openSlots_cons rfl]
    | _ => cases hslot

theorem openSlots_map_write (h : ∀ slot ∈ slots, slot.preparedId.isSome) :
    openSlots (slots.map Slot.write) = 0 := by
  rw [openSlots, Multiset.countP_eq_zero]
  intro slot hslot
  obtain ⟨slot', hslot', rfl⟩ := mem_map.1 hslot
  have hprepared := h slot' hslot'
  cases slot' with
  | prepared id entry => simp [Slot.write, Slot.unwritten]
  | _ => cases hprepared

end

/-- Every step changes the counter by what it changes beside it. -/
theorem Act.count {new : Multiset (Worker Id)} {n : ℕ}
    (h : Act o b rest t b' new) (ht : Fine o b t) (hcount : b.pending = b.events.card + t.weight + n) :
    b'.pending = b'.events.card + (new.map Worker.weight).sum + n := by
  cases h with
  | reserve _ =>
    simp only [Worker.weight, map_singleton, sum_singleton] at hcount ⊢
    rw [openSlots_cons rfl]
    omega
  | prepare _ _ =>
    simp only [Worker.weight, map_singleton, sum_singleton, Book.prepare] at hcount ⊢
    rw [openSlots_cons rfl] at hcount ⊢
    omega
  | refuse _ _ _ =>
    simp only [Worker.weight, map_singleton, sum_singleton] at hcount ⊢
    rw [openSlots_cons rfl] at hcount ⊢
    omega
  | @drop q l slots slot hslot =>
    have hdrop : (b.dropEntry slot).pending = b.pending ∧
        (b.dropEntry slot).events = b.events := by
      unfold Book.dropEntry
      grind
    simp only [Worker.weight, map_singleton, sum_singleton] at hcount ⊢
    rw [openSlots_cons hslot] at hcount
    rw [openSlots_cons rfl, hdrop.1, hdrop.2]
    omega
  | giveBack =>
    simp only [Worker.weight, map_singleton, sum_singleton] at hcount ⊢
    rw [openSlots_cons rfl] at hcount
    omega
  | @write q l slots hslots =>
    obtain ⟨hnodup, hids, -⟩ := ht
    have hdisjoint : Disjoint b.events (preparedIds slots).toFinset :=
      disjoint_right.2 fun id hid => (hids id (mem_toFinset.1 hid)).2.1
    have hcard : (b.events ∪ (preparedIds slots).toFinset).card =
        b.events.card + (preparedIds slots).card := by
      rw [Finset.card_union_of_disjoint hdisjoint, Multiset.toFinset_card_of_nodup hnodup]
    simp only [Worker.weight, map_singleton, sum_singleton, Book.write] at hcount ⊢
    rw [openSlots_map_write hslots, hcard, card_preparedIds hslots]
    omega
  | commit =>
    simp only [Worker.weight, map_singleton, sum_singleton] at hcount ⊢
    rw [openSlots_written] at hcount
    omega
  | written => simpa [Worker.weight] using hcount
  | collect ids _ =>
    simpa [Worker.weight, Removal.before] using hcount
  | @remove f l ids =>
    have hsub : ids ⊆ b.events := fun id hid => ((ht id hid).2.2).2 rfl
    have hcard := Finset.card_sdiff_add_card_eq_card hsub
    simp only [Worker.weight, map_singleton, sum_singleton, Book.remove,
      Removal.before, Removal.ids] at hcount ⊢
    simp_all
  | unindex =>
    simpa [Worker.weight, Removal.before, Removal.ids, Book.unindex] using hcount
  | @subtract f l ids =>
    simp only [Worker.weight, Multiset.map_zero, Multiset.sum_zero, Removal.before, Removal.ids,
      Bool.false_eq_true, if_false] at hcount ⊢
    omega
  | quit hphase =>
    rcases hphase with rfl | ⟨ids, rfl⟩
    · simpa [Worker.weight, Removal.before] using hcount
    · simpa [Worker.weight, Removal.before] using hcount

/-! ## The index -/

/-- The call accounts for an index entry of an id that is not pending: it has prepared the id, or it
has taken the event off `E/` and not cleaned the index yet. -/
def Worker.Accounts (id : Id) : Worker Id → Prop
  | writer _ _ slots => id ∈ preparedIds slots
  | remover _ _ (.removed ids) => id ∈ ids
  | _ => False

def Worker.Readies (id : Id) (n : ℕ) : Worker Id → Prop
  | writer _ _ slots => .written id (some n) ∈ slots
  | remover .. => False

/-- An entry is that of a pending event, or a call in flight accounts for it; `X` stands for the
other calls. -/
theorem Act.entry {new : Multiset (Worker Id)} (h : Act o b rest t b' new)
    (ho : o.indexed = true) (ht : Fine o b t) {id : Id} {X : Prop}
    (hold : (b.index id).isSome → id ∈ b.events ∨ t.Accounts id ∨ X) (hid : (b'.index id).isSome) :
    id ∈ b'.events ∨ (∃ t', new = {t'} ∧ t'.Accounts id) ∨ X := by
  have hsame : ∀ t', new = {t'} → (b'.index id).isSome = (b.index id).isSome →
      b'.events = b.events → (t.Accounts id → t'.Accounts id) →
      id ∈ b'.events ∨ (∃ t', new = {t'} ∧ t'.Accounts id) ∨ X := by
    intro t' hnew hindex hevents hacc
    grind
  cases h with
  | reserve _ => exact hsame _ rfl rfl rfl fun hacc => by simpa [Worker.Accounts] using hacc
  | @prepare q l slots id' hnamed hindex =>
    by_cases heq : id = id'
    · subst heq
      exact .inr (.inl ⟨_, rfl, by simp [Worker.Accounts]⟩)
    · refine hsame _ rfl ?_ rfl fun hacc => ?_
      · simp [Book.prepare, ho, Function.update_of_ne heq]
      · have hmem : id ∈ preparedIds slots := by simpa [Worker.Accounts] using hacc
        simp [Worker.Accounts, hmem]
  | refuse _ _ _ => exact hsame _ rfl rfl rfl fun hacc => by simpa [Worker.Accounts] using hacc
  | @drop q l slots slot hslot =>
    cases slot with
    | prepared id' entry =>
      obtain ⟨n, rfl, hn⟩ := ht.2.2 id' entry (mem_cons_self _ _) ho
      simp only [Book.dropEntry, hn, if_true] at hid hsame ⊢
      by_cases heq : id = id'
      · subst heq
        simp at hid
      · refine hsame _ rfl (by rw [Function.update_of_ne heq]) trivial fun hacc => ?_
        simpa [Worker.Accounts, heq] using hacc
    | _ => exact hsame _ rfl rfl rfl fun hacc => by simpa [Worker.Accounts] using hacc
  | giveBack => exact hsame _ rfl rfl rfl fun hacc => by simpa [Worker.Accounts] using hacc
  | @write q l slots hslots =>
    rcases hold hid with hE | hacc | hX
    · exact .inl (Finset.mem_union_left _ hE)
    · exact .inl (Finset.mem_union_right _ (mem_toFinset.2 hacc))
    · exact .inr (.inr hX)
  | commit => exact hsame _ rfl rfl rfl fun hacc => by simpa [Worker.Accounts] using hacc
  | written =>
    exact (hold hid).imp_right fun h => h.imp_left fun hacc => absurd hacc (notMem_zero id)
  | collect ids _ => exact hsame _ rfl rfl rfl fun hacc => hacc.elim
  | @remove f l ids =>
    rcases hold hid with hE | hacc | hX
    · by_cases hmem : id ∈ ids
      · exact .inr (.inl ⟨_, rfl, hmem⟩)
      · exact .inl (mem_sdiff.2 ⟨hE, hmem⟩)
    · exact hacc.elim
    · exact .inr (.inr hX)
  | @unindex f l ids =>
    have hmem : id ∉ ids := by
      intro hmem
      simp [Book.unindex, ho, hmem] at hid
    refine hsame _ rfl (by simp [Book.unindex, hmem]) rfl fun hacc => ?_
    exact absurd hacc hmem
  | subtract => exact (hold hid).imp_right fun h => h.imp_left False.elim
  | quit hphase =>
    refine (hold hid).imp_right fun h => h.imp_left fun hacc => ?_
    rcases hphase with rfl | ⟨ids, rfl⟩
    · exact hacc.elim
    · exact hacc.elim

/-- A pending event has an entry that is ready, or a call in flight is about to make it ready. -/
theorem Act.ready {new : Multiset (Worker Id)} (h : Act o b rest t b' new)
    (ho : o.indexed = true) (hb : Known b) (ht : Fine o b t) {id : Id} {X : ℕ → Prop}
    (hold : id ∈ b.events → ∃ n, b.index id = some n ∧ (n ∈ b.ready ∨ t.Readies id n ∨ X n))
    (hid : id ∈ b'.events) :
    ∃ n, b'.index id = some n ∧ (n ∈ b'.ready ∨ (∃ t', new = {t'} ∧ t'.Readies id n) ∨ X n) := by
  have hsame : ∀ t', new = {t'} → id ∈ b.events → b'.index id = b.index id → b'.ready = b.ready →
      (∀ n, t.Readies id n → t'.Readies id n) →
      ∃ n, b'.index id = some n ∧ (n ∈ b'.ready ∨ (∃ t', new = {t'} ∧ t'.Readies id n) ∨ X n) := by
    grind
  cases h with
  | reserve _ =>
    exact hsame _ rfl hid rfl rfl fun n hr => mem_cons_of_mem hr
  | @prepare q l slots id' hnamed hindex =>
    have hne : id ≠ id' := by
      rintro rfl
      cases q with
      | false => exact hnamed (hb.1 hid)
      | true => exact hnamed.2.1 hid
    refine hsame _ rfl hid (by simp [Book.prepare, ho, Function.update_of_ne hne]) rfl fun n hr => ?_
    exact mem_cons_of_mem (by simpa [Worker.Readies] using hr)
  | refuse _ _ _ =>
    exact hsame _ rfl hid rfl rfl fun n hr =>
      mem_cons_of_mem (by simpa [Worker.Readies] using hr)
  | @drop q l slots slot hslot =>
    have hreadies : ∀ n, (Worker.writer q l (slot ::ₘ slots)).Readies id n →
        (Worker.writer q l (.dropped ::ₘ slots)).Readies id n := by
      intro n hr
      rcases mem_cons.1 hr with rfl | hr
      · cases hslot
      · exact mem_cons_of_mem hr
    cases slot with
    | prepared id' entry =>
      obtain ⟨n, rfl, hn⟩ := ht.2.2 id' entry (mem_cons_self _ _) ho
      simp only [Book.dropEntry, hn, if_true] at hid hsame ⊢
      refine hsame _ rfl hid (Function.update_of_ne ?_ _ _) trivial hreadies
      rintro rfl
      exact (ht.2.1 id (by simp)).2.1 hid
    | _ => exact hsame _ rfl hid rfl rfl hreadies
  | giveBack =>
    refine hsame _ rfl hid rfl rfl fun n hr => ?_
    rcases mem_cons.1 hr with heq | hr
    · cases heq
    · exact hr
  | @write q l slots hslots =>
    rcases mem_union.1 hid with hE | hmem
    · exact hsame _ rfl hE rfl rfl fun n hr => mem_map.2 ⟨_, hr, rfl⟩
    · obtain ⟨entry, hslot⟩ := mem_preparedIds.1 (mem_toFinset.1 hmem)
      obtain ⟨n, rfl, hn⟩ := ht.2.2 id entry hslot ho
      exact ⟨n, hn, .inr (.inl ⟨_, rfl, mem_map.2 ⟨_, hslot, rfl⟩⟩)⟩
  | @commit q l slots id' entry =>
    obtain ⟨n, hn, hready | hreadies | hX⟩ := hold hid
    · exact ⟨n, hn, .inl (Finset.mem_union_left _ hready)⟩
    · rcases mem_cons.1 hreadies with heq | hmem
      · cases heq
        exact ⟨n, hn, .inl (Finset.mem_union_right _ (by simp))⟩
      · exact ⟨n, hn, .inr (.inl ⟨_, rfl, hmem⟩)⟩
    · exact ⟨n, hn, .inr (.inr hX)⟩
  | written =>
    obtain ⟨n, hn, hrest⟩ := hold hid
    exact ⟨n, hn, hrest.imp_right fun h => h.imp_left fun hr => absurd hr (notMem_zero _)⟩
  | collect ids _ => exact hsame _ rfl hid rfl rfl fun n hr => hr.elim
  | @remove f l ids =>
    exact hsame _ rfl (mem_sdiff.1 hid).1 rfl rfl fun n hr => hr.elim
  | @unindex f l ids =>
    have hmem : id ∉ ids := fun hmem => by
      have hbefore := ((ht id hmem).2.2).1 hid
      cases hbefore
    exact hsame _ rfl hid (by simp [Book.unindex, hmem]) rfl fun n hr => hr.elim
  | subtract =>
    obtain ⟨n, hn, hrest⟩ := hold hid
    exact ⟨n, hn, hrest.imp_right fun h => h.imp_left False.elim⟩
  | quit _ =>
    obtain ⟨n, hn, hrest⟩ := hold hid
    exact ⟨n, hn, hrest.imp_right fun h => h.imp_left False.elim⟩

/-! ## Runs -/

/-- What holds in every state of a run; `bound` is the larger of the limit and the recovered count. -/
structure Exact (o : BookOptions Id) (bound : ℕ) (p : Pool (Book Id) (Worker Id)) : Prop where
  orderly : Orderly o p
  limit_le : o.limit ≤ bound
  count : p.shared.pending = p.shared.events.card + (p.threads.map Worker.weight).sum
  bounded : p.shared.pending ≤ bound
  entry : o.indexed = true → ∀ id, (p.shared.index id).isSome →
    id ∈ p.shared.events ∨ ∃ t ∈ p.threads, t.Accounts id
  ready : o.indexed = true → ∀ id ∈ p.shared.events, ∃ n, p.shared.index id = some n ∧
    (n ∈ p.shared.ready ∨ ∃ t ∈ p.threads, t.Readies id n)

theorem Act.pending_le {new : Multiset (Worker Id)} {bound : ℕ}
    (h : Act o b rest t b' new) (hlimit : o.limit ≤ bound) (hb : b.pending ≤ bound) :
    b'.pending ≤ bound := by
  cases h with
  | reserve hlt =>
    simp only
    omega
  | @drop q l slots slot _ =>
    unfold Book.dropEntry
    grind
  | giveBack =>
    simp only
    omega
  | subtract =>
    simp only
    omega
  | _ => exact hb

theorem Exact.step {bound : ℕ} {p p' : Pool (Book Id) (Worker Id)} (h : Exact o bound p)
    (hs : Step o p p') : Exact o bound p' := by
  have horderly := h.orderly.step hs
  cases hs with
  | @act b b' t rest new hact =>
    obtain ⟨hb, hfine, -⟩ := h.orderly
    have ht := hfine t (mem_cons_self t rest)
    have hsplit : ∀ {P : Worker Id → Prop}, (∃ u ∈ t ::ₘ rest, P u) → P t ∨ ∃ u ∈ rest, P u := by
      grind
    have hjoin : ∀ {P : Worker Id → Prop}, (∃ t', new = {t'} ∧ P t') ∨ (∃ u ∈ rest, P u) →
        ∃ u ∈ new + rest, P u := by
      rintro P (⟨t', rfl, hP⟩ | ⟨u, hu, hP⟩)
      · exact ⟨t', mem_add.2 (.inl (Multiset.mem_singleton_self t')), hP⟩
      · exact ⟨u, mem_add.2 (.inr hu), hP⟩
    refine ⟨horderly, h.limit_le, ?_, hact.pending_le h.limit_le h.bounded, fun ho id hid => ?_,
      fun ho id hid => ?_⟩
    · have hcount := h.count
      simp only [Multiset.map_cons, Multiset.sum_cons] at hcount
      simp only [Multiset.map_add, sum_add]
      rw [hact.count ht (n := (rest.map Worker.weight).sum) (by omega), Nat.add_assoc]
    · exact (hact.entry ho ht (fun hid' => (h.entry ho id hid').imp_right hsplit) hid).imp_right hjoin
    · have hold : id ∈ b.events → ∃ n, b.index id = some n ∧
          (n ∈ b.ready ∨ t.Readies id n ∨ ∃ u ∈ rest, u.Readies id n) := by
        intro hE
        obtain ⟨n, hn, hrest⟩ := h.ready ho id hE
        exact ⟨n, hn, hrest.imp_right hsplit⟩
      obtain ⟨n, hn, hrest⟩ := hact.ready ho hb ht hold hid
      exact ⟨n, hn, hrest.imp_right hjoin⟩
  | @spawn b t ts hsp =>
    have hzero : t.weight = 0 := by
      cases hsp with
      | remove _ => rfl
      | _ => simp [Worker.weight]
    refine ⟨horderly, h.limit_le, ?_, h.bounded, fun ho id hid => ?_, fun ho id hid => ?_⟩
    · simpa [hzero] using h.count
    · exact (h.entry ho id hid).imp_right fun ⟨u, hu, hP⟩ => ⟨u, mem_cons_of_mem hu, hP⟩
    · obtain ⟨n, hn, hrest⟩ := h.ready ho id hid
      exact ⟨n, hn, hrest.imp_right fun ⟨u, hu, hP⟩ => ⟨u, mem_cons_of_mem hu, hP⟩⟩

/-! ## Recovery -/

omit [DecidableEq Id] in
/-- The scan counts every key, and an index that stays on lists every key. -/
theorem recoverScan_eq (limit : ℕ) (indexed : Bool) (keys : List Id) :
    (recoverScan limit indexed keys).1 = keys.length ∧
      ((recoverScan limit indexed keys).2.1 = true → (recoverScan limit indexed keys).2.2 = keys) := by
  have hfold : ∀ (n : ℕ) (on : Bool) (index : List Id),
      (keys.foldl (recoverKey limit) (n, on, index)).1 = n + keys.length ∧
        ((keys.foldl (recoverKey limit) (n, on, index)).2.1 = true →
          (keys.foldl (recoverKey limit) (n, on, index)).2.2 = index ++ keys) := by
    induction keys with
    | nil =>
      intro n on index
      simp
    | cons id keys ih =>
      intro n on index
      -- once the index is off it stays off
      have hoff : ∀ (keys : List Id) (m : ℕ) (index' : List Id),
          (keys.foldl (recoverKey limit) (m, false, index')).2.1 = false := by
        intro keys
        induction keys with
        | nil => exact fun _ _ => rfl
        | cons _ keys ih' => exact fun m index' => ih' (m + 1) index'
      cases on with
      | false =>
        obtain ⟨hcount, -⟩ := ih (n + 1) false index
        refine ⟨?_, fun hon => ?_⟩
        · rw [List.foldl_cons, recoverKey, if_neg (by simp), hcount, List.length_cons]
          omega
        · rw [hoff] at hon
          cases hon
      | true =>
        rw [List.foldl_cons, recoverKey, if_pos rfl]
        split
        · obtain ⟨hcount, -⟩ := ih (n + 1) false []
          refine ⟨by rw [hcount, List.length_cons]; omega, fun hon => ?_⟩
          rw [hoff] at hon
          cases hon
        · obtain ⟨hcount, hindex⟩ := ih (n + 1) true (index ++ [id])
          refine ⟨by rw [hcount, List.length_cons]; omega, fun hon => ?_⟩
          rw [hindex hon, List.append_assoc, List.singleton_append]
  obtain ⟨hcount, hindex⟩ := hfold 0 indexed []
  exact ⟨by rw [recoverScan, hcount, Nat.zero_add], fun hon => by rw [recoverScan, hindex hon]; rfl⟩

theorem recover_exact (limit : ℕ) (enabled : Bool) (stripe : Id → ℕ) {keys : List Id}
    (hkeys : keys.Nodup) (failed : Finset Id) :
    Exact ⟨limit, (recoverScan limit enabled keys).2.1, stripe⟩ (max limit keys.length)
      ⟨recover limit enabled keys failed, 0⟩ := by
  obtain ⟨hcount, hindex⟩ := recoverScan_eq limit enabled keys
  refine ⟨⟨⟨Finset.subset_union_left, Finset.subset_union_right⟩, by simp, Pool.apart_zero _⟩,
    le_max_left _ _, ?_, ?_, fun ho id hid => ?_, fun ho id hid => ?_⟩
  · simp [recover, hcount, List.toFinset_card_of_nodup hkeys]
  · simp [recover, hcount]
  · simp only [recover, hindex ho] at hid ⊢
    split at hid
    · next hmem => exact .inl (List.mem_toFinset.2 hmem)
    · cases hid
  · have hmem : id ∈ keys := List.mem_toFinset.1 hid
    refine ⟨keys.idxOf id, ?_, .inl ?_⟩
    · simp only [recover, hindex ho, hmem, if_true]
    · simp only [recover, hindex ho, Finset.mem_range]
      exact List.idxOf_lt_length_of_mem hmem

/-- In every interleaving the counter is the number of pending events, of slots whose batch is not
written yet and of removals not subtracted yet; it stays within its bound, zero means that nothing is
pending, no subtraction underflows, and with no call in flight the ready entries of the index are the
pending events. -/
theorem pending_exact (limit : ℕ) (enabled : Bool) (stripe : Id → ℕ) {keys : List Id}
    (hkeys : keys.Nodup) (failed : Finset Id) {p : Pool (Book Id) (Worker Id)}
    (hrun : Relation.ReflTransGen (Step ⟨limit, (recoverScan limit enabled keys).2.1, stripe⟩)
      ⟨recover limit enabled keys failed, 0⟩ p) :
    p.shared.pending =
        p.shared.events.card + unwrittenSlots p.threads + unsubtracted p.threads ∧
      p.shared.pending ≤ max limit keys.length ∧
      (p.shared.pending = 0 → p.shared.events = ∅) ∧
      (∀ f l ids, .remover f l (.unindexed ids) ∈ p.threads → ids.card ≤ p.shared.pending) ∧
      (∀ q l slots, .writer q l slots ∈ p.threads → .dropped ∈ slots → 1 ≤ p.shared.pending) ∧
      ((recoverScan limit enabled keys).2.1 = true → p.threads = 0 → ∀ id,
        (∃ n ∈ p.shared.ready, p.shared.index id = some n) ↔ id ∈ p.shared.events) := by
  have h : Exact ⟨limit, (recoverScan limit enabled keys).2.1, stripe⟩ (max limit keys.length) p := by
    induction hrun with
    | refl => exact recover_exact limit enabled stripe hkeys failed
    | tail _ hs ih => exact ih.step hs
  have hcount := h.count
  rw [sum_weight] at hcount
  have hweight : ∀ t ∈ p.threads, t.weight ≤ p.shared.pending := by
    intro t ht
    have htotal := h.count
    obtain ⟨rest, hrest⟩ := Multiset.exists_cons_of_mem ht
    rw [hrest, Multiset.map_cons, Multiset.sum_cons] at htotal
    omega
  refine ⟨by omega, h.bounded, fun hzero => ?_, fun f l ids hmem => ?_, fun q l slots hmem hslot => ?_,
    fun ho hnone id => ⟨fun ⟨n, hn, hid⟩ => ?_, fun hid => ?_⟩⟩
  · exact Finset.card_eq_zero.1 (by omega)
  · exact hweight _ hmem
  · refine le_trans ?_ (hweight _ hmem)
    obtain ⟨rest, rfl⟩ := Multiset.exists_cons_of_mem hslot
    have hopen : openSlots (.dropped ::ₘ rest : Multiset (Slot Id)) = openSlots rest + 1 :=
      openSlots_cons rfl
    simp only [Worker.weight, hopen]
    omega
  · rcases h.entry ho id (by rw [hid]; rfl) with hE | ⟨t, ht, -⟩
    · exact hE
    · rw [hnone] at ht
      exact absurd ht (Multiset.notMem_zero t)
  · obtain ⟨n, hn, hready | ⟨t, ht, -⟩⟩ := h.ready ho id hid
    · exact ⟨n, hready, hn⟩
    · rw [hnone] at ht
      exact absurd ht (Multiset.notMem_zero t)

/-! ## A new event, step by step -/

def sampleBook : BookOptions ℕ := ⟨1, (recoverScan 1 true ([] : List ℕ)).2.1, fun _ => 0⟩

def samplePrepared : Book ℕ :=
  { recover 1 true ([] : List ℕ) ∅ with pending := 1 }.prepare sampleBook 7

/-- The store after the batch of a new event is written and before its slot is committed. -/
def sampleWritten : Pool (Book ℕ) (Worker ℕ) :=
  ⟨samplePrepared.write false {7}, {.writer false ∅ {.written 7 (some 0)}}⟩

theorem sampleWritten_reachable :
    Relation.ReflTransGen (Step sampleBook) ⟨recover 1 true [] ∅, 0⟩ sampleWritten := by
  have hspawn : Step sampleBook ⟨recover 1 true [] ∅, 0⟩
      ⟨recover 1 true [] ∅, .writer false ∅ 0 ::ₘ 0⟩ := .spawn .create
  have hreserve : Step sampleBook ⟨recover 1 true [] ∅, .writer false ∅ 0 ::ₘ 0⟩
      ⟨{ recover 1 true [] ∅ with pending := 1 }, {.writer false ∅ (.reserved ::ₘ 0)} + 0⟩ :=
    .act (.reserve (by decide))
  have hprepare : Step sampleBook
      ⟨{ recover 1 true [] ∅ with pending := 1 }, .writer false ∅ (.reserved ::ₘ 0) ::ₘ 0⟩
      ⟨samplePrepared, {.writer false ∅ (.prepared 7 (some 0) ::ₘ 0)} + 0⟩ :=
    .act (.prepare (Finset.notMem_empty 7) fun _ => rfl)
  have hwrite : Step sampleBook ⟨samplePrepared, .writer false ∅ (.prepared 7 (some 0) ::ₘ 0) ::ₘ 0⟩
      ⟨samplePrepared.write false {7}, {.writer false ∅ (.written 7 (some 0) ::ₘ 0)} + 0⟩ :=
    .act (.write (by simp [Slot.preparedId]))
  exact .tail (.tail (.tail (.single hspawn) hreserve) hprepare) hwrite

theorem pending_exact_written : sampleWritten.shared.pending =
    sampleWritten.shared.events.card + unwrittenSlots sampleWritten.threads +
      unsubtracted sampleWritten.threads :=
  (pending_exact 1 true (fun _ => 0) List.nodup_nil ∅ sampleWritten_reachable).1

def uncommittedSlots (ts : Multiset (Worker Id)) : ℕ :=
  (ts.map fun
    | .writer _ _ slots => slots.card
    | .remover .. => 0).sum

/-- A slot that is written and not committed is counted with the pending events already. -/
theorem uncommitted_slot_counted_twice :
    Relation.ReflTransGen (Step sampleBook) ⟨recover 1 true [] ∅, 0⟩ sampleWritten ∧
      sampleWritten.shared.pending ≠ sampleWritten.shared.events.card +
        uncommittedSlots sampleWritten.threads + unsubtracted sampleWritten.threads :=
  ⟨sampleWritten_reachable, by decide⟩

end TinyImx.Local.Pending
