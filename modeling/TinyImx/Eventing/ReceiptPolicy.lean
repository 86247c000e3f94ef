import Mathlib.Data.List.Nodup
import Mathlib.Data.List.Perm.Basic
import Mathlib.Data.List.Perm.Subperm
import Mathlib.Data.Nat.Cast.Basic
import TinyImx.Lib.Search
import TinyImx.Local.Types

/-!
# Receipts of a batch

`BatchSendReceiptPolicy` decides which entries of a batch the broker confirmed.  It takes receipts
one for each entry, or a single one whose id joins the ids of all entries with commas; what fits
neither form confirms nothing.
-/

namespace TinyImx.Eventing

open Local (Bytes ascii)
open List (getElem?_replicate length_cons length_take mem_cons mem_cons_of_mem mem_cons_self
  mem_iff_getElem nodup_cons nodup_nil not_mem_nil replicate splitOn_eq_singleton)

/-! ## The policy -/

def maxEntries : ℕ := 32
def maxMessageIdBytes : ℕ := 256

inductive Aggregate where
  | ok | multipleResults | other
  deriving DecidableEq

inductive Decision where
  | retryable | confirmed
  deriving DecidableEq

inductive Reason where
  | none | invalidRequest | uncertainTransport | unusableAggregate | malformedReceipts
  deriving DecidableEq

structure Entry where
  messageId : Bytes
  positive : Bool

structure Result where
  entries : List Decision := List.replicate maxEntries .retryable
  count : ℕ := 0
  requestValid : Bool := false
  responseUsable : Bool := false
  reason : Reason := .invalidRequest
  deriving DecidableEq

def malformed (input : Result) : Result :=
  { count := input.count, requestValid := input.requestValid, reason := .malformedReceipts }

def checkIds (earlier : List Bytes) : List Bytes → Bool
  | [] => true
  | id :: ids =>
    if id = [] ∨ maxMessageIdBytes < id.length then false
    else if id ∈ earlier then false
    else checkIds (earlier ++ [id]) ids

/-- The first index whose id fits, unless there is none or it was seen, and `seen` with it. -/
def claim (expectedIds : List Bytes) (seen : List Bool) (fits : Bytes → Bool) :
    Option (ℕ × List Bool) :=
  let index := expectedIds.findIdx fits
  if index = expectedIds.length ∨ seen.getD index false = true then none
  else some (index, seen.set index true)

def mapReceipts (expectedIds : List Bytes) :
    List Entry → List Bool → List Decision → Option (List Decision)
  | [], _, entries => some entries
  | receipt :: receipts, seen, entries =>
    if receipt.messageId = [] then
      if receipt.positive then none else mapReceipts expectedIds receipts seen entries
    else match claim expectedIds seen (· = receipt.messageId) with
      | none => none
      | some (index, seen) =>
        mapReceipts expectedIds receipts seen
          (if receipt.positive then entries.set index .confirmed else entries)

def map (expectedIds : List Bytes) (transportCompleted : Bool) (aggregate : Aggregate)
    (receipts : List Entry) : Result :=
  if expectedIds = [] ∨ maxEntries < expectedIds.length then {}
  else
    let out : Result := { count := expectedIds.length }
    if checkIds [] expectedIds = false then out
    else
      let out := { out with requestValid := true }
      if transportCompleted = false then { out with reason := .uncertainTransport }
      else if aggregate ≠ .ok ∧ aggregate ≠ .multipleResults then
        { out with reason := .unusableAggregate }
      else if out.count < receipts.length then malformed out
      else match mapReceipts expectedIds receipts (List.replicate maxEntries false) out.entries with
        | none => malformed out
        | some entries => { out with entries, responseUsable := true, reason := .none }

/-- The loop over the parts of a joined id, with the number of parts; for at most so many rounds. -/
def joinedLoop (expectedIds : List Bytes) (ids : Bytes) : ℕ → ℕ → ℕ → List Bool → Option ℕ
  | 0, _, _, _ => none
  | rounds + 1, begin_, tokens, seen =>
    let separator := Search.findFrom [44] ids begin_
    let length := separator.getD ids.length - begin_
    if length = 0 ∨ maxMessageIdBytes < length ∨ expectedIds.length ≤ tokens then none
    else
      match claim expectedIds seen fun id =>
        id.length = length ∧ (ids.drop begin_).take length = id with
      | none => none
      | some (_, seen) =>
        match separator with
        | none => some (tokens + 1)
        | some separator => joinedLoop expectedIds ids rounds (separator + 1) (tokens + 1) seen

def mapPinnedNormalBatch (expectedIds : List Bytes) (transportCompleted : Bool)
    (aggregate : Aggregate) (receipts : List Entry) : Result :=
  let out := map expectedIds transportCompleted aggregate []
  if out.requestValid = false then out
  else if expectedIds.any fun id => (44 : UInt8) ∈ id then { count := out.count }
  else if transportCompleted = false ∨ out.reason = .unusableAggregate then out
  else if receipts.any (fun receipt => (44 : UInt8) ∈ receipt.messageId) = false then
    map expectedIds transportCompleted aggregate receipts
  else match receipts with
    | [receipt] =>
      if aggregate ≠ .ok ∨ receipt.positive = false then malformed out
      else
        let ids := receipt.messageId
        if maxEntries * (maxMessageIdBytes + 1) - 1 < ids.length then malformed out
        else
          match joinedLoop expectedIds ids (ids.length + 1) 0 0 (List.replicate maxEntries false) with
          | none => malformed out
          | some tokens =>
            if tokens ≠ out.count then malformed out
            else
              { out with
                entries := out.entries.mapIdx fun i decision =>
                  if i < out.count then .confirmed else decision
                responseUsable := true, reason := .none }
    | _ => malformed out

/-! ## Claiming ids -/

variable {expectedIds ids parts : List Bytes} {id : Bytes} {seen : List Bool} {S : List Bytes}

/-- `seen` marks the expected ids that are in `S`. -/
structure Marks (expectedIds : List Bytes) (seen : List Bool) (S : List Bytes) : Prop where
  length : expectedIds.length ≤ seen.length
  marked : ∀ i (h : i < expectedIds.length), seen.getD i false = true ↔ expectedIds.get ⟨i, h⟩ ∈ S

theorem marks_nil (h : expectedIds.length ≤ maxEntries) :
    Marks expectedIds (replicate maxEntries false) [] where
  length := by rwa [List.length_replicate]
  marked i hi := by
    simp [List.getD_eq_getElem?_getD, getElem?_replicate]
    split <;> rfl

theorem findIdx_eq_iff {i : ℕ} (hnodup : expectedIds.Nodup) (h : i < expectedIds.length) :
    expectedIds.findIdx (· = expectedIds.get ⟨i, h⟩) = i := by
  refine (List.findIdx_eq h).2 ⟨by simp, fun j hj => ?_⟩
  simp only [List.get_eq_getElem, decide_eq_false_iff_not]
  intro heq
  have := (List.Nodup.getElem_inj_iff hnodup).1 heq
  omega

theorem claim_of_not_mem (h : id ∉ expectedIds) : claim expectedIds seen (· = id) = none := by
  unfold claim
  have hindex : expectedIds.findIdx (· = id) = expectedIds.length :=
    List.findIdx_eq_length.2 fun x hx => by simpa using fun heq : x = id => h (heq ▸ hx)
  exact if_pos (.inl hindex)

theorem claim_of_mem (hnodup : expectedIds.Nodup) (hmarks : Marks expectedIds seen S) {i : ℕ}
    (hi : i < expectedIds.length) :
    (expectedIds.get ⟨i, hi⟩ ∈ S → claim expectedIds seen (· = expectedIds.get ⟨i, hi⟩) = none) ∧
      (expectedIds.get ⟨i, hi⟩ ∉ S →
        claim expectedIds seen (· = expectedIds.get ⟨i, hi⟩) = some (i, seen.set i true)) := by
  unfold claim
  rw [findIdx_eq_iff hnodup hi]
  refine ⟨fun hmem => if_pos (.inr ((hmarks.marked i hi).2 hmem)), fun hmem => if_neg ?_⟩
  rw [not_or]
  exact ⟨hi.ne, fun hseen => hmem ((hmarks.marked i hi).1 hseen)⟩

theorem Marks.set (hnodup : expectedIds.Nodup) (hmarks : Marks expectedIds seen S) {i : ℕ}
    (hi : i < expectedIds.length) :
    Marks expectedIds (seen.set i true) (expectedIds.get ⟨i, hi⟩ :: S) where
  length := by
    rw [List.length_set]
    exact hmarks.length
  marked j hj := by
    rw [mem_cons]
    by_cases heq : i = j
    · subst heq
      have := hmarks.length
      simp [List.getD_eq_getElem?_getD, show i < seen.length by omega]
    · have hne : expectedIds.get ⟨j, hj⟩ ≠ expectedIds.get ⟨i, hi⟩ := fun hsame =>
        heq ((List.Nodup.getElem_inj_iff hnodup).1 hsame).symm
      rw [← hmarks.marked j hj, List.getD_eq_getElem?_getD, List.getD_eq_getElem?_getD,
        List.getElem?_set_ne heq]
      exact ⟨.inr, fun h => h.resolve_left hne⟩

/-! ## One receipt for each entry -/

def named (receipts : List Entry) : List Bytes :=
  (receipts.map Entry.messageId).filter (· ≠ [])

/-- Receipts that name distinct ids among the expected ones, outside `S`; one without an id is not
positive. -/
structure Names (expectedIds S : List Bytes) (receipts : List Entry) : Prop where
  nameless : ∀ receipt ∈ receipts, receipt.messageId = [] → receipt.positive = false
  nodup : (named receipts).Nodup
  expected : ∀ id ∈ named receipts, id ∈ expectedIds ∧ id ∉ S

def Confirms (expectedIds : List Bytes) (receipts : List Entry) (i : ℕ) : Prop :=
  ∃ receipt ∈ receipts, receipt.positive = true ∧ receipt.messageId ≠ [] ∧
    expectedIds[i]? = some receipt.messageId

instance (expectedIds : List Bytes) (receipts : List Entry) (i : ℕ) :
    Decidable (Confirms expectedIds receipts i) :=
  inferInstanceAs (Decidable (∃ receipt ∈ receipts, _))

def confirm (expectedIds : List Bytes) (receipts : List Entry) (entries : List Decision) :
    List Decision :=
  entries.mapIdx fun i decision =>
    if Confirms expectedIds receipts i then .confirmed else decision

variable {receipts : List Entry} {receipt : Entry} {entries : List Decision}

theorem confirm_nil : confirm expectedIds [] entries = entries := by
  simp [confirm, Confirms, List.mapIdx_eq_iff]

theorem named_cons_nil (h : receipt.messageId = []) :
    named (receipt :: receipts) = named receipts := by
  simp [named, h]

theorem named_cons_ne (h : receipt.messageId ≠ []) :
    named (receipt :: receipts) = receipt.messageId :: named receipts := by
  simp [named, h]

theorem confirm_cons_of_not (h : receipt.positive = false ∨ receipt.messageId = []) :
    confirm expectedIds (receipt :: receipts) entries = confirm expectedIds receipts entries := by
  unfold confirm
  congr 1
  funext i decision
  refine if_congr ?_ rfl rfl
  unfold Confirms
  rw [List.exists_mem_cons_iff, or_iff_right]
  grind

theorem confirm_cons (hnodup : expectedIds.Nodup) {i : ℕ} (hi : i < expectedIds.length)
    (hid : receipt.messageId = expectedIds.get ⟨i, hi⟩) (hne : receipt.messageId ≠ [])
    (hpositive : receipt.positive = true) :
    confirm expectedIds (receipt :: receipts) entries =
      confirm expectedIds receipts (entries.set i .confirmed) := by
  refine List.ext_getElem? fun j => ?_
  simp only [confirm, List.getElem?_mapIdx, List.getElem?_set]
  have hfirst : Confirms expectedIds (receipt :: receipts) j ↔
      i = j ∨ Confirms expectedIds receipts j := by
    unfold Confirms
    rw [List.exists_mem_cons_iff]
    refine or_congr_left ⟨fun h => ?_, fun h => ?_⟩
    · obtain ⟨hj, hsame⟩ := List.getElem?_eq_some_iff.1 h.2.2
      exact (List.Nodup.getElem_inj_iff hnodup).1 ((hsame.trans hid).symm)
    · simp_all
  by_cases hj : i = j
  · subst hj
    rw [if_pos rfl]
    by_cases hlen : i < entries.length
    · simp_all
    · rw [if_neg hlen, List.getElem?_eq_none (by omega)]
      rfl
  · simp_all

/-- The loop over the receipts gives the decisions that they confirm, if all their ids are claimed. -/
theorem mapReceipts_eq (hnodup : expectedIds.Nodup) (hmarks : Marks expectedIds seen S) :
    (Names expectedIds S receipts →
      mapReceipts expectedIds receipts seen entries =
        some (confirm expectedIds receipts entries)) ∧
    (¬ Names expectedIds S receipts → mapReceipts expectedIds receipts seen entries = none) := by
  induction receipts generalizing seen entries S with
  | nil =>
    refine ⟨fun _ => by rw [mapReceipts, confirm_nil], fun h => absurd ?_ h⟩
    exact ⟨fun _ h => absurd h not_mem_nil, nodup_nil,
      fun _ h => absurd h not_mem_nil⟩
  | cons receipt receipts ih =>
    by_cases hempty : receipt.messageId = []
    · rw [mapReceipts, if_pos hempty]
      cases hpositive : receipt.positive with
      | true =>
        rw [if_pos rfl]
        refine ⟨fun h => ?_, fun _ => rfl⟩
        have := h.nameless receipt mem_cons_self hempty
        simp_all
      | false =>
        have hiff : Names expectedIds S (receipt :: receipts) ↔ Names expectedIds S receipts := by
          refine ⟨fun h => ⟨fun r hmem => h.nameless r (mem_cons_of_mem _ hmem), ?_, ?_⟩,
            fun h => ⟨fun r hmem hr => ?_, ?_, ?_⟩⟩
          · exact named_cons_nil hempty ▸ h.nodup
          · exact named_cons_nil hempty ▸ h.expected
          · rcases mem_cons.1 hmem with rfl | hmem
            · exact hpositive
            · exact h.nameless r hmem hr
          · exact (named_cons_nil hempty).symm ▸ h.nodup
          · exact (named_cons_nil hempty).symm ▸ h.expected
        rw [if_neg (by simp), confirm_cons_of_not (.inl hpositive), hiff]
        exact ih hmarks
    · rw [mapReceipts, if_neg hempty]
      by_cases hmem : receipt.messageId ∈ expectedIds
      swap
      · rw [claim_of_not_mem hmem]
        refine ⟨fun h => absurd (h.expected _ ?_).1 hmem, fun _ => rfl⟩
        rw [named_cons_ne hempty]
        exact mem_cons_self
      obtain ⟨i, hi, hid⟩ := mem_iff_getElem.1 hmem
      have hid : receipt.messageId = expectedIds.get ⟨i, hi⟩ := hid.symm
      by_cases hS : receipt.messageId ∈ S
      · have hclaim := (claim_of_mem hnodup hmarks hi).1 (hid ▸ hS)
        rw [← hid] at hclaim
        rw [hclaim]
        refine ⟨fun h => absurd hS (h.expected _ ?_).2, fun _ => rfl⟩
        rw [named_cons_ne hempty]
        exact mem_cons_self
      · have hclaim := (claim_of_mem hnodup hmarks hi).2 (hid ▸ hS)
        rw [← hid] at hclaim
        rw [hclaim]
        have hiff : Names expectedIds S (receipt :: receipts) ↔
            Names expectedIds (receipt.messageId :: S) receipts := by
          constructor
          · intro h
            have hnodup := h.nodup
            rw [named_cons_ne hempty, nodup_cons] at hnodup
            refine ⟨fun r hr => h.nameless r (mem_cons_of_mem _ hr), hnodup.2,
              fun id hid => ?_⟩
            obtain ⟨hexpected, hnot⟩ := h.expected id (by
              rw [named_cons_ne hempty]
              exact mem_cons_of_mem _ hid)
            refine ⟨hexpected, fun hmem => ?_⟩
            grind
          · intro h
            refine ⟨fun r hr hr' => ?_, ?_, fun id hid => ?_⟩
            · rcases mem_cons.1 hr with rfl | hr
              · exact absurd hr' hempty
              · exact h.nameless r hr hr'
            · rw [named_cons_ne hempty, nodup_cons]
              exact ⟨fun hmem => (h.expected _ hmem).2 mem_cons_self, h.nodup⟩
            · rw [named_cons_ne hempty] at hid
              rcases mem_cons.1 hid with rfl | hid
              · exact ⟨hmem, hS⟩
              · obtain ⟨hexpected, hnot⟩ := h.expected id hid
                exact ⟨hexpected, fun hmem => hnot (mem_cons_of_mem _ hmem)⟩
        have hmarks' := hmarks.set hnodup hi
        rw [← hid] at hmarks'
        have ih := @ih (seen.set i true) (receipt.messageId :: S)
          (if receipt.positive then entries.set i .confirmed else entries) hmarks'
        rw [hiff]
        refine ⟨fun h => (ih.1 h).trans (congrArg some ?_), ih.2⟩
        cases hpositive : receipt.positive with
        | true => exact (confirm_cons hnodup hi hid hempty hpositive).symm
        | false => exact (confirm_cons_of_not (.inl hpositive)).symm

/-! ## The request -/

theorem checkIds_iff {earlier : List Bytes} : checkIds earlier ids = true ↔
    (∀ id ∈ ids, id ≠ [] ∧ id.length ≤ maxMessageIdBytes) ∧ ids.Nodup ∧ ∀ id ∈ ids, id ∉ earlier := by
  induction ids generalizing earlier with
  | nil => simp [checkIds]
  | cons id ids ih =>
    rw [checkIds]
    split
    · next hbad => simpa using fun hne hle => absurd hbad (by simp [hne, hle])
    next hgood =>
    rw [not_or, Nat.not_lt] at hgood
    split
    · next hmem => simp [hmem]
    next hnew =>
    rw [ih, nodup_cons, List.forall_mem_cons, List.forall_mem_cons]
    constructor
    · rintro ⟨hids, hnodup, hnot⟩
      refine ⟨⟨hgood, hids⟩, ⟨fun hmem => hnot id hmem (by simp), hnodup⟩, hnew,
        fun other hmem hearlier => hnot other hmem (by simp [hearlier])⟩
    · grind

/-- The ids of a request that `Map` accepts. -/
structure Valid (expectedIds : List Bytes) : Prop where
  ne_nil : expectedIds ≠ []
  length : expectedIds.length ≤ maxEntries
  nodup : expectedIds.Nodup
  bounded : ∀ id ∈ expectedIds, id ≠ [] ∧ id.length ≤ maxMessageIdBytes

theorem valid_iff : Valid expectedIds ↔
    ¬ (expectedIds = [] ∨ maxEntries < expectedIds.length) ∧ checkIds [] expectedIds = true := by
  rw [checkIds_iff, not_or, Nat.not_lt]
  constructor
  · exact fun h => ⟨⟨h.ne_nil, h.length⟩, h.bounded, h.nodup, by simp⟩
  · exact fun h => ⟨h.1.1, h.1.2, h.2.2.1, h.2.1⟩

/-! ## A joined receipt -/

theorem splitOn_comma (text : Bytes) : text.splitOn 44 =
    match Search.find [44] text with
    | none => [text]
    | some i => text.take i :: (text.drop (i + 1)).splitOn 44 := by
  cases hfind : Search.find [44] text with
  | none =>
    refine splitOn_eq_singleton fun hmem => ?_
    obtain ⟨i, hi, heq⟩ := mem_iff_getElem.1 hmem
    refine Search.find_eq_none_iff.1 hfind i hi.le ⟨text.drop (i + 1), ?_⟩
    rw [List.drop_eq_getElem_cons hi, heq]
    rfl
  | some i =>
    obtain ⟨hle, ⟨rest, hrest⟩, hfirst⟩ := Search.find_eq_some_iff.1 hfind
    have hnot : (44 : UInt8) ∉ text.take i := by
      intro hmem
      obtain ⟨j, hj, heq⟩ := mem_iff_getElem.1 hmem
      have hjlt : j < text.length := lt_of_lt_of_le hj (List.length_take_le' _ _)
      rw [length_take] at hj
      refine hfirst j (by omega) ⟨text.drop (j + 1), ?_⟩
      rw [List.drop_eq_getElem_cons hjlt, ← heq, List.getElem_take]
      rfl
    have hdrop : text.drop (i + 1) = rest := by
      rw [← List.drop_drop, ← hrest]
      rfl
    have htext : text = text.take i ++ 44 :: rest := by
      simp_all
    change text.splitOn 44 = text.take i :: (text.drop (i + 1)).splitOn 44
    conv_lhs => rw [htext]
    rw [hdrop]
    exact List.splitOn_append_cons_self_of_not_mem hnot rest

theorem mem_of_length_le (hS : S.Nodup) (hsub : S ⊆ expectedIds)
    (hlen : expectedIds.length ≤ S.length) (hid : id ∈ expectedIds) : id ∈ S :=
  ((List.subperm_of_subset hS hsub).perm_of_length_le hlen).mem_iff.2 hid

/-- Parts that claim distinct ids among the expected ones, outside `S`. -/
def Claims (expectedIds S parts : List Bytes) : Prop :=
  parts.Nodup ∧ ∀ part ∈ parts, part ∈ expectedIds ∧ part ∉ S

theorem claims_cons {part : Bytes} : Claims expectedIds S (part :: parts) ↔
    (part ∈ expectedIds ∧ part ∉ S) ∧ Claims expectedIds (part :: S) parts := by
  unfold Claims
  rw [nodup_cons, List.forall_mem_cons]
  constructor
  · rintro ⟨⟨hnot, hnodup⟩, hpart, hparts⟩
    refine ⟨hpart, hnodup, fun other hmem => ⟨(hparts other hmem).1, fun hS => ?_⟩⟩
    simp_all
  · rintro ⟨hpart, hnodup, hparts⟩
    exact ⟨⟨fun hmem => (hparts part hmem).2 mem_cons_self, hnodup⟩, hpart,
      fun other hmem => ⟨(hparts other hmem).1, fun hS =>
        (hparts other hmem).2 (mem_cons_of_mem _ hS)⟩⟩

theorem joinedLoop_step {text : Bytes} {rounds start tokens : ℕ} {part : Bytes} {next : Option ℕ}
    (hfind : Search.find [44] (text.drop start) = next)
    (hpart : part = (text.drop start).take (next.getD (text.drop start).length)) :
    joinedLoop expectedIds text (rounds + 1) start tokens seen =
      if part.length = 0 ∨ maxMessageIdBytes < part.length ∨ expectedIds.length ≤ tokens then none
      else match claim expectedIds seen (· = part) with
        | none => none
        | some (_, seen) =>
          match next with
          | none => some (tokens + 1)
          | some i => joinedLoop expectedIds text rounds (start + i + 1) (tokens + 1) seen := by
  have hlength : part.length = (next.map (start + ·)).getD text.length - start := by
    rw [hpart, length_take]
    cases next with
    | none =>
      simp
    | some i =>
      have := Search.length_le_of_find hfind
      grind
  have hfits : (fun id : Bytes => decide (id.length = part.length ∧
      (text.drop start).take part.length = id)) = fun id => decide (id = part) := by
    funext id
    have hsame : (text.drop start).take part.length = part := by
      rw [hpart, length_take, List.take_eq_take_iff]
      omega
    rw [hsame, decide_eq_decide]
    exact ⟨fun h => h.2.symm, fun h => ⟨congrArg List.length h, h.symm⟩⟩
  rw [joinedLoop]
  simp only [Search.findFrom, hfind]
  rw [← hlength, hfits]
  cases next <;> rfl

/-- The loop over the parts of a text counts them, if each claims another expected id. -/
theorem joinedLoop_eq (hvalid : Valid expectedIds) {text : Bytes} {rounds start tokens : ℕ}
    (hstart : start ≤ text.length) (hrounds : text.length - start < rounds)
    (hmarks : Marks expectedIds seen S) (hS : S.Nodup) (hsub : S ⊆ expectedIds)
    (htokens : tokens = S.length) :
    (Claims expectedIds S ((text.drop start).splitOn 44) →
      joinedLoop expectedIds text rounds start tokens seen =
        some (tokens + ((text.drop start).splitOn 44).length)) ∧
    (¬ Claims expectedIds S ((text.drop start).splitOn 44) →
      joinedLoop expectedIds text rounds start tokens seen = none) := by
  induction rounds generalizing start tokens seen S with
  | zero => exact absurd hrounds (Nat.not_lt_zero _)
  | succ rounds ih =>
    obtain ⟨part, rest, hsplit, hpart, hrest⟩ : ∃ part rest,
        (text.drop start).splitOn 44 = part :: rest ∧
        part = (text.drop start).take
          ((Search.find [44] (text.drop start)).getD (text.drop start).length) ∧
        match Search.find [44] (text.drop start) with
        | none => rest = []
        | some i => rest = (text.drop (start + i + 1)).splitOn 44 := by
      rw [splitOn_comma]
      cases hfind : Search.find [44] (text.drop start) with
      | none => exact ⟨_, _, rfl, (List.take_length ..).symm, rfl⟩
      | some i => exact ⟨_, _, rfl, rfl, by simp only [List.drop_drop, Nat.add_assoc]⟩
    rw [hsplit, joinedLoop_step rfl hpart, claims_cons]
    by_cases hmem : part ∈ expectedIds ∧ part ∉ S
    swap
    · refine ⟨fun h => absurd h.1 hmem, fun _ => ?_⟩
      split
      · rfl
      have hclaim : claim expectedIds seen (· = part) = none := by
        by_cases hexpected : part ∈ expectedIds
        · obtain ⟨i, hi, heq⟩ := mem_iff_getElem.1 hexpected
          have hin : part ∈ S := by
            by_contra hnot
            exact hmem ⟨hexpected, hnot⟩
          have hclaim := (claim_of_mem hvalid.nodup hmarks hi).1
          rw [show expectedIds.get ⟨i, hi⟩ = part from heq] at hclaim
          exact hclaim hin
        · exact claim_of_not_mem hexpected
      rw [hclaim]
    obtain ⟨i, hi, heq⟩ := mem_iff_getElem.1 hmem.1
    have heq : expectedIds.get ⟨i, hi⟩ = part := heq
    have hclaim := (claim_of_mem hvalid.nodup hmarks hi).2
    have hmarks' := hmarks.set hvalid.nodup hi
    rw [heq] at hclaim hmarks'
    obtain ⟨hne, hshort⟩ := hvalid.bounded part hmem.1
    have hroom : ¬ expectedIds.length ≤ tokens := fun hfull =>
      hmem.2 (mem_of_length_le hS hsub (htokens ▸ hfull) hmem.1)
    rw [if_neg (by
      rw [not_or, not_or, List.length_eq_zero_iff]
      exact ⟨hne, by omega, hroom⟩), hclaim hmem.2]
    cases hfind : Search.find [44] (text.drop start) with
    | none =>
      rw [hfind] at hrest
      subst hrest
      refine ⟨fun _ => rfl, fun h => absurd ⟨hmem, ?_⟩ h⟩
      exact ⟨nodup_nil, fun _ h => absurd h not_mem_nil⟩
    | some j =>
      rw [hfind] at hrest
      subst hrest
      have hle := Search.length_le_of_find hfind
      rw [List.length_drop, List.length_singleton] at hle
      have ih := @ih (seen.set i true) (part :: S) (start + j + 1) (tokens + 1) (by omega) (by omega)
        hmarks' (nodup_cons.2 ⟨hmem.2, hS⟩) (List.cons_subset.2 ⟨hmem.1, hsub⟩)
        (by rw [htokens, length_cons])
      refine ⟨fun h => (ih.1 h.2).trans ?_, fun h => ih.2 fun h' => h ⟨hmem, h'⟩⟩
      rw [length_cons]
      congr 1
      omega

theorem length_of_perm {text : Bytes} (hvalid : Valid expectedIds)
    (hperm : (text.splitOn 44).Perm expectedIds) :
    text.length ≤ maxEntries * (maxMessageIdBytes + 1) - 1 := by
  have hlength : ∀ parts : List Bytes, parts ≠ [] →
      ([44].intercalate parts).length + 1 = (parts.map fun part => part.length + 1).sum := by
    intro parts hne
    induction parts with
    | nil => exact absurd rfl hne
    | cons part parts ih =>
      cases parts with
      | nil => simp
      | cons next parts =>
        have ih := ih (by simp)
        rw [List.map_cons, List.sum_cons, ← ih]
        simp [List.intercalate]
        omega
  have hsum := hlength (text.splitOn 44) (List.splitOn_ne_nil _ _)
  rw [List.intercalate_splitOn, (hperm.map _).sum_eq] at hsum
  have hbound : (expectedIds.map fun part => part.length + 1).sum ≤
      expectedIds.length * (maxMessageIdBytes + 1) := by
    have := List.sum_le_card_nsmul (expectedIds.map fun part : Bytes => part.length + 1)
      (maxMessageIdBytes + 1) fun n hn => by
        obtain ⟨part, hmem, rfl⟩ := List.mem_map.1 hn
        exact Nat.succ_le_succ (hvalid.bounded part hmem).2
    rwa [List.length_map, nsmul_eq_mul, Nat.cast_id] at this
  have := Nat.mul_le_mul_right (maxMessageIdBytes + 1) hvalid.length
  omega

/-! ## What is confirmed -/

variable {completed : Bool} {aggregate : Aggregate}

def accepted (expectedIds : List Bytes) (entries : List Decision) : Result :=
  { entries, count := expectedIds.length, requestValid := true, responseUsable := true
    reason := .none }

def refused (expectedIds : List Bytes) : Result :=
  { count := expectedIds.length, requestValid := true, reason := .malformedReceipts }

structure Request (expectedIds : List Bytes) : Prop extends Valid expectedIds where
  noComma : ∀ id ∈ expectedIds, (44 : UInt8) ∉ id

structure PerEntry (expectedIds : List Bytes) (receipts : List Entry) : Prop where
  names : Names expectedIds [] receipts
  length : receipts.length ≤ expectedIds.length

def Joined (expectedIds : List Bytes) (aggregate : Aggregate) (receipts : List Entry) : Prop :=
  aggregate = .ok ∧ ∃ ids, receipts = [⟨ids, true⟩] ∧ (ids.splitOn 44).Perm expectedIds

def Plain (receipts : List Entry) : Prop := ∀ receipt ∈ receipts, (44 : UInt8) ∉ receipt.messageId

def Usable (aggregate : Aggregate) : Prop := aggregate = .ok ∨ aggregate = .multipleResults

def allRetryable : List Decision := List.replicate maxEntries .retryable

theorem accepted_entries : (accepted expectedIds entries).entries = entries := rfl

theorem refused_entries : (refused expectedIds).entries = allRetryable := rfl

theorem map_eq (hvalid : Valid expectedIds) (husable : Usable aggregate) :
    (PerEntry expectedIds receipts →
      map expectedIds true aggregate receipts =
        accepted expectedIds (confirm expectedIds receipts allRetryable)) ∧
    (¬ PerEntry expectedIds receipts →
      map expectedIds true aggregate receipts = refused expectedIds) := by
  obtain ⟨hlength, hcheck⟩ := valid_iff.1 hvalid
  have haggregate : ¬ (aggregate ≠ .ok ∧ aggregate ≠ .multipleResults) := by
    rcases husable with rfl | rfl <;> simp
  have hloop := @mapReceipts_eq _ _ _ receipts allRetryable hvalid.nodup
    (marks_nil hvalid.length)
  have hmap : map expectedIds true aggregate receipts =
      if expectedIds.length < receipts.length then refused expectedIds
      else match mapReceipts expectedIds receipts (replicate maxEntries false)
          allRetryable with
        | none => refused expectedIds
        | some entries => accepted expectedIds entries := by
    unfold map
    rw [if_neg hlength, hcheck]
    simp only [Bool.true_eq_false, if_false, if_neg haggregate]
    rfl
  rw [hmap]
  constructor
  · intro h
    rw [if_neg (Nat.not_lt.2 h.length), hloop.1 h.names]
  · intro h
    split
    · rfl
    next hlen => rw [hloop.2 fun hnames => h ⟨hnames, Nat.not_lt.1 hlen⟩]

theorem map_nil_usable (hvalid : Valid expectedIds) (husable : Usable aggregate) :
    map expectedIds true aggregate [] = accepted expectedIds allRetryable := by
  have hempty : PerEntry expectedIds [] :=
    ⟨⟨fun _ h => absurd h not_mem_nil, nodup_nil, fun _ h => absurd h not_mem_nil⟩,
      Nat.zero_le _⟩
  rw [(map_eq hvalid husable).1 hempty, confirm_nil]

/-- Without a usable response nothing is confirmed, whatever the receipts. -/
theorem mapPinned_of_not (h : ¬ (Request expectedIds ∧ completed = true ∧ Usable aggregate)) :
    ∃ result : Result, (result.entries = allRetryable ∧ result.responseUsable = false) ∧ ∀ receipts,
      mapPinnedNormalBatch expectedIds completed aggregate receipts = result := by
  by_cases hvalid : Valid expectedIds
  swap
  · have hmap : (map expectedIds completed aggregate []).requestValid = false ∧
        ((map expectedIds completed aggregate []).entries = allRetryable ∧
          (map expectedIds completed aggregate []).responseUsable = false) := by
      rw [valid_iff, not_and_or, not_not, Bool.not_eq_true] at hvalid
      unfold map
      split
      · exact ⟨rfl, rfl, rfl⟩
      next hlength =>
      rw [hvalid.resolve_left hlength]
      exact ⟨rfl, rfl, rfl⟩
    refine ⟨_, hmap.2, fun receipts => ?_⟩
    simp only [mapPinnedNormalBatch]
    rw [hmap.1]
    rfl
  obtain ⟨hlength, hcheck⟩ := valid_iff.1 hvalid
  by_cases hcomma : ∀ id ∈ expectedIds, (44 : UInt8) ∉ id
  swap
  · have hany : (expectedIds.any fun id => decide ((44 : UInt8) ∈ id)) = true := by
      simp_all
    have hcount : ∃ out, map expectedIds completed aggregate [] = out ∧
        out.requestValid = true := by
      refine ⟨_, rfl, ?_⟩
      unfold map
      rw [if_neg hlength, hcheck]
      simp only [Bool.true_eq_false, if_false]
      split
      · rfl
      split
      · rfl
      · split
        · rfl
        · rfl
    obtain ⟨out, hout, hrequest⟩ := hcount
    refine ⟨{ count := out.count }, ⟨rfl, rfl⟩, fun receipts => ?_⟩
    simp only [mapPinnedNormalBatch]
    rw [hout, hrequest, hany]
    rfl
  have hbad : completed = false ∨ ¬ Usable aggregate := by
    by_contra hgood
    rw [not_or, not_not, Bool.not_eq_false] at hgood
    exact h ⟨⟨hvalid, hcomma⟩, hgood⟩
  have hany : (expectedIds.any fun id => decide ((44 : UInt8) ∈ id)) = false := by
    simp_all
  obtain ⟨out, hout, hrequest, hentries, hreason⟩ : ∃ out,
      map expectedIds completed aggregate [] = out ∧ out.requestValid = true ∧
        (out.entries = allRetryable ∧ out.responseUsable = false) ∧
        (completed = false ∨ out.reason = .unusableAggregate) := by
    refine ⟨_, rfl, ?_⟩
    unfold map
    rw [if_neg hlength, hcheck]
    cases completed with
    | false => exact ⟨rfl, ⟨rfl, rfl⟩, .inl rfl⟩
    | true =>
      cases aggregate with
      | ok => exact absurd (.inl rfl) (hbad.resolve_left (by simp))
      | multipleResults => exact absurd (.inr rfl) (hbad.resolve_left (by simp))
      | other => exact ⟨rfl, ⟨rfl, rfl⟩, .inr rfl⟩
  refine ⟨out, hentries, fun receipts => ?_⟩
  simp only [mapPinnedNormalBatch]
  simp_all

theorem plain_iff : (receipts.any fun receipt => decide ((44 : UInt8) ∈ receipt.messageId)) = false ↔
    Plain receipts := by
  rw [List.any_eq_false]
  simp [Plain]

theorem mapPinned_plain (h : Request expectedIds) (husable : Usable aggregate)
    (hplain : Plain receipts) :
    mapPinnedNormalBatch expectedIds true aggregate receipts =
      map expectedIds true aggregate receipts := by
  have hany : (expectedIds.any fun id => decide ((44 : UInt8) ∈ id)) = false := by
    rw [List.any_eq_false]
    simpa using h.noComma
  simp only [mapPinnedNormalBatch]
  rw [map_nil_usable h.toValid husable, hany, plain_iff.2 hplain]
  rfl

theorem joinedLoop_start (h : Request expectedIds) (text : Bytes) :
    ((text.splitOn 44).Perm expectedIds ↔
      (Claims expectedIds [] (text.splitOn 44) ∧
        (text.splitOn 44).length = expectedIds.length)) := by
  constructor
  · intro hperm
    exact ⟨⟨hperm.nodup_iff.2 h.nodup, fun part hmem =>
      ⟨hperm.mem_iff.1 hmem, not_mem_nil⟩⟩, hperm.length_eq⟩
  · rintro ⟨hclaims, hlength⟩
    exact (List.subperm_of_subset hclaims.1 fun part hmem =>
      (hclaims.2 part hmem).1).perm_of_length_le hlength.ge

theorem mapIdx_all (n : ℕ) :
    (allRetryable.mapIdx fun i decision => if i < n then Decision.confirmed else decision) =
      allRetryable.mapIdx fun i _ => if i < n then .confirmed else .retryable := by
  refine List.ext_getElem? fun j => ?_
  simp only [List.getElem?_mapIdx, allRetryable, getElem?_replicate]
  by_cases hj : j < maxEntries <;> simp [hj]

theorem mapPinned_many (h : Request expectedIds) (husable : Usable aggregate)
    (hcomma : ¬ Plain receipts) (hmany : ∀ receipt, receipts ≠ [receipt]) :
    mapPinnedNormalBatch expectedIds true aggregate receipts = refused expectedIds := by
  have hany : (expectedIds.any fun id => decide ((44 : UInt8) ∈ id)) = false := by
    rw [List.any_eq_false]
    simpa using h.noComma
  have hcommas : (receipts.any fun receipt => decide ((44 : UInt8) ∈ receipt.messageId)) = true :=
    eq_true_of_ne_false fun hfalse => hcomma (plain_iff.1 hfalse)
  simp only [mapPinnedNormalBatch]
  rw [map_nil_usable h.toValid husable, hany, hcommas]
  match receipts with
  | [] => rfl
  | [receipt] => exact absurd rfl (hmany receipt)
  | _ :: _ :: _ => rfl

theorem mapPinned_one (h : Request expectedIds) (husable : Usable aggregate)
    (hcomma : ¬ Plain [receipt]) :
    mapPinnedNormalBatch expectedIds true aggregate [receipt] =
      if aggregate ≠ .ok ∨ receipt.positive = false then refused expectedIds
      else if maxEntries * (maxMessageIdBytes + 1) - 1 < receipt.messageId.length then
        refused expectedIds
      else match joinedLoop expectedIds receipt.messageId (receipt.messageId.length + 1) 0 0
          (replicate maxEntries false) with
        | none => refused expectedIds
        | some tokens =>
          if tokens ≠ expectedIds.length then refused expectedIds
          else accepted expectedIds
            (allRetryable.mapIdx fun i _ => if i < expectedIds.length then .confirmed
              else .retryable) := by
  have hany : (expectedIds.any fun id => decide ((44 : UInt8) ∈ id)) = false := by
    rw [List.any_eq_false]
    simpa using h.noComma
  have hcommas : ([receipt].any fun receipt => decide ((44 : UInt8) ∈ receipt.messageId)) = true :=
    eq_true_of_ne_false fun hfalse => hcomma (plain_iff.1 hfalse)
  simp only [mapPinnedNormalBatch]
  rw [map_nil_usable h.toValid husable, hany, hcommas, ← mapIdx_all]
  rfl

theorem mapPinned_comma (h : Request expectedIds) (husable : Usable aggregate)
    (hcomma : ¬ Plain receipts) :
    (Joined expectedIds aggregate receipts →
      mapPinnedNormalBatch expectedIds true aggregate receipts =
        accepted expectedIds
          (allRetryable.mapIdx fun i _ => if i < expectedIds.length then .confirmed
            else .retryable)) ∧
    (¬ Joined expectedIds aggregate receipts →
      mapPinnedNormalBatch expectedIds true aggregate receipts = refused expectedIds) := by
  by_cases hone : ∃ receipt, receipts = [receipt]
  swap
  · refine ⟨?_, fun _ => mapPinned_many h husable hcomma fun receipt heq => hone ⟨receipt, heq⟩⟩
    rintro ⟨-, ids, hids, -⟩
    exact absurd ⟨_, hids⟩ hone
  obtain ⟨receipt, rfl⟩ := hone
  rw [mapPinned_one h husable hcomma]
  by_cases hgood : aggregate ≠ .ok ∨ receipt.positive = false
  · rw [if_pos hgood]
    refine ⟨fun hj => ?_, fun _ => rfl⟩
    obtain ⟨hok, ids, hids, -⟩ := hj
    simp_all
  rw [if_neg hgood]
  rw [not_or, not_not, Bool.not_eq_false] at hgood
  have hjoined : Joined expectedIds aggregate [receipt] ↔
      Claims expectedIds [] (receipt.messageId.splitOn 44) ∧
        (receipt.messageId.splitOn 44).length = expectedIds.length := by
    rw [← joinedLoop_start h]
    constructor
    · rintro ⟨-, ids, hids, hperm⟩
      cases hids
      exact hperm
    · refine fun hperm => ⟨hgood.1, receipt.messageId, ?_, hperm⟩
      rw [← hgood.2]
  have hloop := @joinedLoop_eq expectedIds (replicate maxEntries false) [] h.toValid
    receipt.messageId (receipt.messageId.length + 1) 0 0 (Nat.zero_le _) (by omega)
    (marks_nil h.length) nodup_nil (List.nil_subset _) rfl
  rw [List.drop_zero, Nat.zero_add] at hloop
  by_cases hlong : maxEntries * (maxMessageIdBytes + 1) - 1 < receipt.messageId.length
  · rw [if_pos hlong]
    refine ⟨fun hj => ?_, fun _ => rfl⟩
    have := length_of_perm h.toValid ((joinedLoop_start h _).2 (hjoined.1 hj))
    omega
  rw [if_neg hlong]
  by_cases hclaims : Claims expectedIds [] (receipt.messageId.splitOn 44)
  swap
  · rw [hloop.2 hclaims]
    exact ⟨fun hj => absurd (hjoined.1 hj).1 hclaims, fun _ => rfl⟩
  rw [hloop.1 hclaims]
  by_cases hlen : (receipt.messageId.splitOn 44).length = expectedIds.length
  · simp only [hlen, ne_eq, not_true_eq_false, if_false]
    exact ⟨fun _ => trivial, fun hj => absurd (hjoined.2 ⟨hclaims, hlen⟩) hj⟩
  · refine ⟨fun hj => absurd (hjoined.1 hj).2 hlen, fun _ => ?_⟩
    exact if_pos hlen

/-! ## Order -/

def SameParts (a b : Entry) : Prop :=
  a.positive = b.positive ∧ (a.messageId.splitOn 44).Perm (b.messageId.splitOn 44)

def Reordered (receipts receipts' : List Entry) : Prop :=
  ∃ middle, receipts.Perm middle ∧ List.Forall₂ SameParts middle receipts'

variable {receipts' : List Entry}

theorem Reordered.symm (h : Reordered receipts receipts') : Reordered receipts' receipts := by
  obtain ⟨middle, hperm, hsame⟩ := h
  obtain ⟨other, hsame, hperm⟩ := List.perm_comp_forall₂ hperm hsame
  refine ⟨other, hperm.symm, hsame.flip.imp ?_⟩
  exact fun a b hab => ⟨hab.1.symm, hab.2.symm⟩

theorem mem_comma_iff {text : Bytes} : (44 : UInt8) ∈ text ↔ 1 < (text.splitOn 44).length := by
  constructor
  · intro hmem
    rw [splitOn_comma]
    cases hfind : Search.find [44] text with
    | none =>
      obtain ⟨i, hi, heq⟩ := mem_iff_getElem.1 hmem
      refine absurd ⟨text.drop (i + 1), ?_⟩ (Search.find_eq_none_iff.1 hfind i hi.le)
      rw [List.drop_eq_getElem_cons hi, heq]
      rfl
    | some i =>
      rw [length_cons]
      exact Nat.succ_lt_succ (List.length_pos_iff.2 (List.splitOn_ne_nil _ _))
  · intro hlen
    by_contra hnot
    rw [splitOn_eq_singleton hnot] at hlen
    exact absurd hlen (by simp)

theorem SameParts.eq_of_not_mem {a b : Entry} (h : SameParts a b) (ha : (44 : UInt8) ∉ a.messageId) :
    a = b := by
  have hb : (44 : UInt8) ∉ b.messageId := by
    rw [mem_comma_iff, ← h.2.length_eq, ← mem_comma_iff]
    exact ha
  have hparts := h.2
  rw [splitOn_eq_singleton ha, splitOn_eq_singleton hb, List.perm_singleton,
    List.singleton_inj] at hparts
  cases a
  cases b
  exact congrArg₂ Entry.mk hparts h.1

theorem Reordered.perm (h : Reordered receipts receipts') (hplain : Plain receipts) :
    receipts.Perm receipts' := by
  obtain ⟨middle, hperm, hsame⟩ := h
  have hplain : ∀ receipt ∈ middle, (44 : UInt8) ∉ receipt.messageId :=
    fun receipt hmem => hplain receipt (hperm.mem_iff.2 hmem)
  have heq : List.Forall₂ (· = ·) middle receipts' :=
    ((List.forall₂_and_left middle receipts').2 ⟨hplain, hsame⟩).imp
      fun a b hab => hab.2.eq_of_not_mem hab.1
  rw [List.forall₂_eq_eq_eq] at heq
  exact heq ▸ hperm

theorem Reordered.plain (h : Reordered receipts receipts') (hplain : Plain receipts) :
    Plain receipts' :=
  fun receipt hmem => hplain receipt ((h.perm hplain).mem_iff.2 hmem)

theorem Reordered.joined (h : Reordered receipts receipts')
    (hj : Joined expectedIds aggregate receipts) : Joined expectedIds aggregate receipts' := by
  obtain ⟨hok, ids, rfl, hids⟩ := hj
  obtain ⟨middle, hperm, hsame⟩ := h
  obtain rfl := List.singleton_perm.1 hperm
  obtain ⟨other, rest, hother, hnil, rfl⟩ := List.forall₂_cons_left_iff.1 hsame
  obtain rfl := List.forall₂_nil_left_iff.1 hnil
  refine ⟨hok, other.messageId, ?_, hother.2.symm.trans hids⟩
  rw [show true = other.positive from hother.1]

theorem PerEntry.of_perm (hperm : receipts.Perm receipts') (h : PerEntry expectedIds receipts) :
    PerEntry expectedIds receipts' := by
  have hnamed : (named receipts).Perm (named receipts') := (hperm.map _).filter _
  refine ⟨⟨fun r hr => h.names.nameless r (hperm.mem_iff.2 hr), hnamed.nodup_iff.1 h.names.nodup,
    fun id hid => h.names.expected id (hnamed.mem_iff.2 hid)⟩, ?_⟩
  rw [← hperm.length_eq]
  exact h.length

theorem confirm_of_perm (hperm : receipts.Perm receipts') :
    confirm expectedIds receipts entries = confirm expectedIds receipts' entries := by
  unfold confirm
  congr 1
  funext i decision
  refine if_congr ?_ rfl rfl
  unfold Confirms
  exact exists_congr fun receipt => and_congr_left' hperm.mem_iff

theorem mapPinned_reordered (h : Reordered receipts receipts') :
    mapPinnedNormalBatch expectedIds completed aggregate receipts =
      mapPinnedNormalBatch expectedIds completed aggregate receipts' := by
  by_cases hgood : Request expectedIds ∧ completed = true ∧ Usable aggregate
  swap
  · obtain ⟨result, -, hresult⟩ := mapPinned_of_not hgood
    rw [hresult, hresult]
  obtain ⟨hrequest, rfl, husable⟩ := hgood
  by_cases hplain : Plain receipts
  · have hperm := h.perm hplain
    rw [mapPinned_plain hrequest husable hplain,
      mapPinned_plain hrequest husable (h.plain hplain)]
    by_cases hentry : PerEntry expectedIds receipts
    · rw [(map_eq hrequest.toValid husable).1 hentry,
        (map_eq hrequest.toValid husable).1 (hentry.of_perm hperm), confirm_of_perm hperm]
    · rw [(map_eq hrequest.toValid husable).2 hentry,
        (map_eq hrequest.toValid husable).2 fun h' => hentry (h'.of_perm hperm.symm)]
  · have hplain' : ¬ Plain receipts' := fun h' => hplain (h.symm.plain h')
    by_cases hjoined : Joined expectedIds aggregate receipts
    · rw [(mapPinned_comma hrequest husable hplain).1 hjoined,
        (mapPinned_comma hrequest husable hplain').1 (h.joined hjoined)]
    · rw [(mapPinned_comma hrequest husable hplain).2 hjoined,
        (mapPinned_comma hrequest husable hplain').2 fun h' => hjoined (h.symm.joined h')]

/-! ## Main theorem -/

def Confirmed (expectedIds : List Bytes) (completed : Bool) (aggregate : Aggregate)
    (receipts : List Entry) (i : ℕ) : Prop :=
  Request expectedIds ∧ completed = true ∧
    ((Plain receipts ∧ Usable aggregate ∧ PerEntry expectedIds receipts ∧
        Confirms expectedIds receipts i) ∨
      (Joined expectedIds aggregate receipts ∧ i < expectedIds.length))

def WellFormed (expectedIds : List Bytes) (completed : Bool) (aggregate : Aggregate)
    (receipts : List Entry) : Prop :=
  Request expectedIds ∧ completed = true ∧
    ((Plain receipts ∧ Usable aggregate ∧ PerEntry expectedIds receipts) ∨
      Joined expectedIds aggregate receipts)

theorem allRetryable_get (i : ℕ) : allRetryable[i]? ≠ some .confirmed := by
  rw [allRetryable, getElem?_replicate]
  split <;> simp

theorem Joined.perEntry (hplain : Plain receipts) (hrequest : Request expectedIds)
    (h : Joined expectedIds aggregate receipts) :
    PerEntry expectedIds receipts ∧ ∀ i, Confirms expectedIds receipts i ↔ i < expectedIds.length := by
  obtain ⟨-, id, rfl, hids⟩ := h
  rw [splitOn_eq_singleton (hplain _ mem_cons_self), List.singleton_perm] at hids
  subst hids
  have hne : id ≠ [] := (hrequest.bounded id mem_cons_self).1
  have hnamed : named [⟨id, true⟩] = [id] := named_cons_ne hne
  refine ⟨⟨⟨?_, ?_, ?_⟩, le_rfl⟩, fun i => ?_⟩
  · intro receipt hmem hempty
    obtain rfl := List.mem_singleton.1 hmem
    exact absurd hempty hne
  · simp_all
  · intro other hmem
    simp_all
  · unfold Confirms
    cases i with
    | zero => simp [hne]
    | succ i => simp

theorem mapIdx_confirmed {f : ℕ → Prop} [DecidablePred f] (hbound : ∀ i, f i → i < maxEntries)
    (i : ℕ) :
    (allRetryable.mapIdx fun i decision => if f i then Decision.confirmed else decision)[i]? =
      some .confirmed ↔ f i := by
  rw [List.getElem?_mapIdx, allRetryable, getElem?_replicate]
  by_cases hi : i < maxEntries
  · simp_all
  · simp_all

theorem confirm_get (hvalid : Valid expectedIds) (i : ℕ) :
    (confirm expectedIds receipts allRetryable)[i]? = some .confirmed ↔
      Confirms expectedIds receipts i := by
  refine mapIdx_confirmed (fun i h => ?_) i
  obtain ⟨receipt, -, -, -, hget⟩ := h
  exact lt_of_lt_of_le (List.getElem?_eq_some_iff.1 hget).1 hvalid.length

/-- The result of a response, of one of the two forms or of neither. -/
theorem mapPinned_spec (expectedIds : List Bytes) (completed : Bool) (aggregate : Aggregate)
    (receipts : List Entry) :
    (∀ i, (mapPinnedNormalBatch expectedIds completed aggregate receipts).entries[i]? =
        some .confirmed ↔ Confirmed expectedIds completed aggregate receipts i) ∧
      (¬ WellFormed expectedIds completed aggregate receipts →
        (mapPinnedNormalBatch expectedIds completed aggregate receipts).responseUsable = false) := by
  by_cases hgood : Request expectedIds ∧ completed = true ∧ Usable aggregate
  swap
  · obtain ⟨result, ⟨hentries, husable⟩, hresult⟩ := mapPinned_of_not hgood
    rw [hresult, hentries]
    refine ⟨fun i => ⟨fun h => absurd h (allRetryable_get i), fun h => ?_⟩, fun _ => husable⟩
    refine absurd ⟨h.1, h.2.1, ?_⟩ hgood
    rcases h.2.2 with ⟨-, husable, -⟩ | ⟨⟨hok, -⟩, -⟩
    · exact husable
    · exact .inl hok
  obtain ⟨hrequest, rfl, husable⟩ := hgood
  by_cases hplain : Plain receipts
  · have hsame : ∀ i, Confirmed expectedIds true aggregate receipts i ↔
        PerEntry expectedIds receipts ∧ Confirms expectedIds receipts i := by
      refine fun i => ⟨?_, fun h => ⟨hrequest, rfl, .inl ⟨hplain, husable, h⟩⟩⟩
      rintro ⟨-, -, ⟨-, -, h⟩ | ⟨hjoined, hi⟩⟩
      · exact h
      · have := hjoined.perEntry hplain hrequest
        exact ⟨this.1, (this.2 i).2 hi⟩
    rw [mapPinned_plain hrequest husable hplain]
    by_cases hentry : PerEntry expectedIds receipts
    · rw [(map_eq hrequest.toValid husable).1 hentry, accepted_entries]
      refine ⟨fun i => ?_, fun h => absurd ⟨hrequest, rfl, .inl ⟨hplain, husable, hentry⟩⟩ h⟩
      rw [hsame, and_iff_right hentry]
      exact confirm_get hrequest.toValid i
    · rw [(map_eq hrequest.toValid husable).2 hentry, refused_entries]
      refine ⟨fun i => ?_, fun _ => rfl⟩
      rw [hsame]
      exact iff_of_false (allRetryable_get i) fun h => hentry h.1
  · have hsame : ∀ i, Confirmed expectedIds true aggregate receipts i ↔
        Joined expectedIds aggregate receipts ∧ i < expectedIds.length := by
      refine fun i => ⟨?_, fun h => ⟨hrequest, rfl, .inr h⟩⟩
      rintro ⟨-, -, ⟨hplain', -⟩ | h⟩
      · exact absurd hplain' hplain
      · exact h
    by_cases hjoined : Joined expectedIds aggregate receipts
    · rw [(mapPinned_comma hrequest husable hplain).1 hjoined, accepted_entries]
      refine ⟨fun i => ?_, fun h => absurd ⟨hrequest, rfl, .inr hjoined⟩ h⟩
      rw [hsame, and_iff_right hjoined, ← mapIdx_all]
      exact mapIdx_confirmed (fun i hi => lt_of_lt_of_le hi hrequest.length) i
    · rw [(mapPinned_comma hrequest husable hplain).2 hjoined, refused_entries]
      refine ⟨fun i => ?_, fun _ => rfl⟩
      rw [hsame]
      exact iff_of_false (allRetryable_get i) fun h => hjoined h.1

/-- A batch confirms the entries that its receipts confirm in one of the two forms, whatever their
order; a response of neither form confirms nothing. -/
theorem confirmed_iff (expectedIds : List Bytes) (completed : Bool) (aggregate : Aggregate)
    (receipts : List Entry) :
    let result := mapPinnedNormalBatch expectedIds completed aggregate receipts
    (∀ i : ℕ, result.entries[i]? = some Decision.confirmed ↔
      Confirmed expectedIds completed aggregate receipts i) ∧
    (∀ receipts', Reordered receipts receipts' →
      mapPinnedNormalBatch expectedIds completed aggregate receipts' = result) ∧
    (¬ WellFormed expectedIds completed aggregate receipts →
      result.responseUsable = false ∧ ∀ i : ℕ, result.entries[i]? ≠ some Decision.confirmed) := by
  have hspec := mapPinned_spec expectedIds completed aggregate receipts
  refine ⟨hspec.1, fun receipts' h => (mapPinned_reordered h).symm, fun h => ⟨hspec.2 h, ?_⟩⟩
  intro i hi
  obtain ⟨hrequest, hcompleted, hform⟩ := (hspec.1 i).1 hi
  refine h ⟨hrequest, hcompleted, ?_⟩
  rcases hform with ⟨hplain, husable, hentry, -⟩ | ⟨hjoined, -⟩
  · exact .inl ⟨hplain, husable, hentry⟩
  · exact .inr hjoined

/-- A joined receipt in another order confirms the same entries. -/
theorem confirmed_iff_sample :
    let receipts : List Entry := [⟨ascii "b,a", true⟩]
    mapPinnedNormalBatch [ascii "a", ascii "b"] true .ok [⟨ascii "a,b", true⟩] =
        mapPinnedNormalBatch [ascii "a", ascii "b"] true .ok receipts ∧
      (mapPinnedNormalBatch [ascii "a", ascii "b"] true .ok receipts).entries[1]? =
        some .confirmed := by
  refine ⟨(confirmed_iff _ _ _ _).2.1 _ ⟨_, .refl _, .cons ⟨rfl, ?_⟩ .nil⟩, by decide⟩
  decide

end TinyImx.Eventing
