import Mathlib.Data.Finset.Card
import Mathlib.Data.Multiset.Bind
import Mathlib.Data.Multiset.Count

/-!
# Tokens in custody

A set of tokens, each of which is kept at exactly one place.  The places are a multiset of tokens; the
rules say how a token enters and leaves, and that no other place has the token of a place.
-/

variable {α : Type}

def Custody (held : Multiset α) (S : Finset α) : Prop := held = S.val

def Option.tokens {α : Type} (x : Option α) : Multiset α := x.elim 0 ({·})

@[simp] theorem Option.tokens_none {α : Type} : (none : Option α).tokens = 0 := rfl

@[simp] theorem Option.tokens_some {α : Type} (a : α) : (some a).tokens = {a} := rfl

def tokensOf {α β : Type} (f : β → Option α) (places : Multiset β) : Multiset α :=
  (places.map fun b => (f b).tokens).sum

section

variable {α β : Type} {f : β → Option α}

@[simp] theorem tokensOf_zero : tokensOf f 0 = 0 := rfl

@[simp] theorem tokensOf_nil : tokensOf f (↑([] : List β)) = 0 := rfl

@[simp] theorem tokensOf_cons (b : β) (places : Multiset β) :
    tokensOf f (b ::ₘ places) = (f b).tokens + tokensOf f places := by
  simp [tokensOf]

@[simp] theorem tokensOf_singleton (b : β) : tokensOf f {b} = (f b).tokens := by
  simp [tokensOf]

@[simp] theorem tokensOf_coe_cons (b : β) (places : List β) :
    tokensOf f (↑(b :: places)) = (f b).tokens + tokensOf f ↑places :=
  tokensOf_cons b ↑places

@[simp] theorem tokensOf_add (l r : Multiset β) : tokensOf f (l + r) = tokensOf f l + tokensOf f r := by
  simp [tokensOf]

@[simp] theorem tokensOf_coe_append (l r : List β) :
    tokensOf f (↑(l ++ r)) = tokensOf f ↑l + tokensOf f ↑r := by
  rw [← Multiset.coe_add, tokensOf_add]

theorem tokensOf_le {g : β → Option α} {places : Multiset β}
    (h : ∀ b ∈ places, f b = none ∨ f b = g b) : tokensOf f places ≤ tokensOf g places := by
  induction places using Multiset.induction_on with
  | empty => exact le_rfl
  | cons b places ih =>
    rw [tokensOf_cons, tokensOf_cons]
    refine add_le_add ?_ (ih fun c hc => h c (Multiset.mem_cons_of_mem hc))
    rcases h b (Multiset.mem_cons_self b places) with hnone | heq
    · rw [hnone]
      exact Multiset.zero_le _
    · rw [heq]

theorem mem_tokensOf {places : Multiset β} {a : α} :
    a ∈ tokensOf f places ↔ ∃ b ∈ places, f b = some a := by
  refine Multiset.mem_bind.trans (exists_congr fun b => and_congr_right fun _ => ?_)
  cases h : f b with
  | none => simp
  | some c => simp [eq_comm]

end

namespace Custody

variable {held held' : Multiset α} {S : Finset α} {a : α}

theorem zero : Custody (0 : Multiset α) ∅ := rfl

theorem of_eq (h : Custody held S) (heq : held = held') : Custody held' S := heq ▸ h

theorem nodup (h : Custody held S) : held.Nodup := by
  have hval : held = S.val := h
  exact hval ▸ S.nodup

theorem alone (h : Custody (a ::ₘ held) S) : a ∉ held := (Multiset.nodup_cons.1 h.nodup).1

variable [DecidableEq α]

theorem take (h : Custody held S) (ha : a ∉ S) : Custody (a ::ₘ held) (insert a S) := by
  have hval : held = S.val := h
  rw [Custody, Finset.insert_val_of_notMem ha, hval]

theorem give (h : Custody (a ::ₘ held) S) : Custody held (S.erase a) := by
  have hval : a ::ₘ held = S.val := h
  rw [Custody, Finset.erase_val, ← hval, Multiset.erase_cons_head]

end Custody
