import TinyImx.Local.EventIds
import TinyImx.Group.Calls

/-!
# Fingerprints tell requests apart

The canonical text of a request is read back from the left: a number ends at the next bar or colon,
and a text has its length before it.  So two requests of one type with one text are the same.
-/

namespace TinyImx.Group

open TinyImx.Local (Bytes ascii decimal decimal_eq decimal_injective digit_range append_cons_inj
  decimal_colon_inj)

theorem bar_eq : bar = [124] := by decide

theorem colon_eq : ascii ":" = [58] := by decide

theorem bar_not_mem_decimal (n : ℕ) : (124 : UInt8) ∉ decimal n := by
  rw [decimal_eq]
  intro h
  obtain ⟨c, hc, heq⟩ := List.mem_map.1 h
  have hr := digit_range (Nat.isDigit_of_mem_toDigits (by decide) (by decide) hc)
  have hn := congrArg UInt8.toNat heq
  rw [UInt8.toNat_ofNat'] at hn
  have h124 : (124 : UInt8).toNat = 124 := rfl
  omega

theorem decimal_bar_inj {m n : ℕ} {x y : Bytes}
    (h : decimal m ++ (bar ++ x) = decimal n ++ (bar ++ y)) : m = n ∧ x = y := by
  rw [bar_eq, List.singleton_append, List.singleton_append] at h
  obtain ⟨hd, hxy⟩ := append_cons_inj (bar_not_mem_decimal m) (bar_not_mem_decimal n) h
  exact ⟨decimal_injective hd, hxy⟩

theorem lengthed_inj {a b x y : Bytes} (h : decimal a.length ++ (ascii ":" ++ (a ++ x)) =
    decimal b.length ++ (ascii ":" ++ (b ++ y))) : a = b ∧ x = y := by
  rw [colon_eq, List.singleton_append, List.singleton_append] at h
  obtain ⟨hlength, hrest⟩ := decimal_colon_inj h
  exact List.append_inj hrest hlength

theorem appendField_inj {a b x y : Bytes} (h : appendField a ++ x = appendField b ++ y) :
    a = b ∧ x = y := by
  simp only [appendField, List.append_assoc] at h
  obtain ⟨rfl, hrest⟩ := lengthed_inj h
  exact ⟨rfl, List.append_cancel_left hrest⟩

theorem optionalField_inj {a b : Option Bytes} {x y : Bytes}
    (h : optionalField a ++ x = optionalField b ++ y) : a = b ∧ x = y := by
  have hone : ascii "1" = [49] := by decide
  have hzero : ascii "0|" = [48, 124] := by decide
  cases a with
  | none =>
    cases b with
    | none => exact ⟨rfl, List.append_cancel_left h⟩
    | some b =>
      simp only [optionalField, hone, hzero, List.cons_append, List.cons.injEq] at h
      exact absurd h.1 (by decide)
  | some a =>
    cases b with
    | none =>
      simp only [optionalField, hone, hzero, List.cons_append, List.cons.injEq] at h
      exact absurd h.1 (by decide)
    | some b =>
      simp only [optionalField, List.append_assoc] at h
      obtain ⟨rfl, hrest⟩ := appendField_inj (List.append_cancel_left h)
      exact ⟨rfl, hrest⟩

theorem JoinPolicy.code_injective {a b : JoinPolicy} (h : a.code = b.code) : a = b := by
  cases a <;> cases b <;> first | rfl | cases h

theorem Role.code_injective {a b : Role} (h : a.code = b.code) : a = b := by
  cases a <;> cases b <;> first | rfl | cases h

theorem policy_inj {a b : Option JoinPolicy}
    (h : (match a with
      | some policy => ascii "1|" ++ decimal policy.code
      | none => ascii "0|") =
      match b with
      | some policy => ascii "1|" ++ decimal policy.code
      | none => ascii "0|") : a = b := by
  have hone : ascii "1|" = [49, 124] := by decide
  have hzero : ascii "0|" = [48, 124] := by decide
  cases a with
  | none =>
    cases b with
    | none => rfl
    | some b =>
      simp_all
  | some a =>
    cases b with
    | none =>
      simp_all
    | some b =>
      rw [JoinPolicy.code_injective (decimal_injective (List.append_cancel_left h))]

/-- Two requests of one type with one canonical text have the same command. -/
theorem canonical_injective {req req' : Request}
    (htype : req.command.operationType = req'.command.operationType)
    (h : req.canonical = req'.canonical) : req.command = req'.command := by
  obtain ⟨actor, id, command⟩ := req
  obtain ⟨actor', id', command'⟩ := req'
  -- the types are different texts
  cases command <;> cases command' <;>
    first | (simp [Command.operationType] at htype; done) | clear htype
  all_goals
    simp only [Request.canonical, List.append_assoc] at h
    obtain ⟨-, h⟩ := decimal_bar_inj (List.append_cancel_left h)
  case createGroup =>
    obtain ⟨hname, h⟩ := appendField_inj h
    obtain ⟨hdescription, h⟩ := appendField_inj h
    obtain ⟨havatar, h⟩ := appendField_inj h
    obtain ⟨hpolicy, h⟩ := decimal_bar_inj h
    simp only [hname, hdescription, havatar, JoinPolicy.code_injective hpolicy, decimal_injective h]
  case updateGroup =>
    obtain ⟨hgroup, h⟩ := decimal_bar_inj h
    obtain ⟨hversion, h⟩ := decimal_bar_inj h
    obtain ⟨hname, h⟩ := optionalField_inj h
    obtain ⟨hdescription, h⟩ := optionalField_inj h
    obtain ⟨havatar, h⟩ := optionalField_inj h
    simp only [hgroup, hversion, hname, hdescription, havatar, policy_inj h]
  case disbandGroup =>
    obtain ⟨hgroup, h⟩ := decimal_bar_inj h
    simp only [hgroup, decimal_injective h]
  case joinGroup => simp only [decimal_injective h]
  case leaveGroup => simp only [decimal_injective h]
  case inviteMember =>
    obtain ⟨hgroup, h⟩ := decimal_bar_inj h
    simp only [hgroup, decimal_injective h]
  case kickMember =>
    obtain ⟨hgroup, h⟩ := decimal_bar_inj h
    simp only [hgroup, decimal_injective h]
  case setMemberRole =>
    obtain ⟨hgroup, h⟩ := decimal_bar_inj h
    obtain ⟨htarget, h⟩ := decimal_bar_inj h
    simp only [hgroup, htarget, Role.code_injective (decimal_injective h)]
  case setMemberMute =>
    obtain ⟨hgroup, h⟩ := decimal_bar_inj h
    obtain ⟨htarget, h⟩ := decimal_bar_inj h
    have hmuted := (lengthed_inj (x := []) (y := []) (by simpa using h)).1
    simp only [hgroup, htarget, hmuted]
  case transferOwnership =>
    obtain ⟨hgroup, h⟩ := decimal_bar_inj h
    simp only [hgroup, decimal_injective h]

end TinyImx.Group
