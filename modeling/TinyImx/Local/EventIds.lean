import TinyImx.Local.Types

/-!
# Event ids

The id of a message's event names the message, and the id of a read carries the stamp of its call;
both are decimal numbers behind a prefix, so two events share an id only if they share these.
-/

namespace TinyImx.Local

theorem decimal_eq (n : ℕ) : decimal n = (Nat.toDigits 10 n).map fun c => UInt8.ofNat c.toNat := by
  rw [decimal, ascii, Nat.toString_eq_repr, Nat.toList_repr]

theorem decimal_ne_nil (n : ℕ) : decimal n ≠ [] := by
  rw [decimal_eq]
  simp [Nat.toDigits_ne_nil]

theorem digit_range {c : Char} (h : c.isDigit) : 48 ≤ c.toNat ∧ c.toNat ≤ 57 := by
  simp only [Char.isDigit, Bool.and_eq_true, decide_eq_true_eq] at h
  exact ⟨UInt32.le_iff_toNat_le.1 h.1, UInt32.le_iff_toNat_le.1 h.2⟩

theorem digit_injective {c d : Char} (hc : c.isDigit) (hd : d.isDigit)
    (h : UInt8.ofNat c.toNat = UInt8.ofNat d.toNat) : c = d := by
  have hc' := digit_range hc
  have hd' := digit_range hd
  have hn := congrArg UInt8.toNat h
  rw [UInt8.toNat_ofNat', UInt8.toNat_ofNat'] at hn
  exact Char.toNat_inj.1 (by omega)

theorem colon_not_mem_decimal (n : ℕ) : (58 : UInt8) ∉ decimal n := by
  rw [decimal_eq]
  intro h
  obtain ⟨c, hc, heq⟩ := List.mem_map.1 h
  have hr := digit_range (Nat.isDigit_of_mem_toDigits (by decide) (by decide) hc)
  have hn := congrArg UInt8.toNat heq
  rw [UInt8.toNat_ofNat'] at hn
  have h58 : (58 : UInt8).toNat = 58 := rfl
  omega

theorem digits_injective {l l' : List Char} (hl : ∀ c ∈ l, c.isDigit) (hl' : ∀ c ∈ l', c.isDigit)
    (h : (l.map fun c => UInt8.ofNat c.toNat) = l'.map fun c => UInt8.ofNat c.toNat) : l = l' := by
  induction l generalizing l' with
  | nil => exact (List.map_eq_nil_iff.1 h.symm).symm
  | cons c l ih =>
    cases l' with
    | nil => cases h
    | cons c' l' =>
      rw [List.map_cons, List.map_cons, List.cons.injEq] at h
      rw [digit_injective (hl c List.mem_cons_self) (hl' c' List.mem_cons_self) h.1,
        ih (fun d hd => hl d (List.mem_cons_of_mem _ hd))
          (fun d hd => hl' d (List.mem_cons_of_mem _ hd)) h.2]

theorem decimal_injective {m n : ℕ} (h : decimal m = decimal n) : m = n := by
  have hdigit : ∀ k, ∀ c ∈ Nat.toDigits 10 k, c.isDigit := fun k c hc =>
    Nat.isDigit_of_mem_toDigits (by decide) (by decide) hc
  rw [decimal_eq, decimal_eq] at h
  have hdigits : Nat.toDigits 10 m = Nat.toDigits 10 n :=
    digits_injective (hdigit m) (hdigit n) h
  rw [← Nat.ofDigitChars_ten_toDigits (n := m), hdigits, Nat.ofDigitChars_ten_toDigits]

theorem append_cons_inj {a b x y : Bytes} {c : UInt8} (ha : c ∉ a) (hb : c ∉ b)
    (h : a ++ c :: x = b ++ c :: y) : a = b ∧ x = y := by
  induction a generalizing b with
  | nil =>
    cases b with
    | nil => exact ⟨rfl, (List.cons.inj h).2⟩
    | cons d b => exact absurd ((List.cons.inj h).1 ▸ List.mem_cons_self) hb
  | cons d a ih =>
    cases b with
    | nil => exact absurd ((List.cons.inj h).1 ▸ List.mem_cons_self) ha
    | cons d' b =>
      obtain ⟨rfl, htail⟩ := List.cons.inj h
      obtain ⟨rfl, hxy⟩ := ih (fun hc => ha (List.mem_cons_of_mem _ hc))
        (fun hc => hb (List.mem_cons_of_mem _ hc)) htail
      exact ⟨rfl, hxy⟩

theorem decimal_colon_inj {m n : ℕ} {x y : Bytes} (h : decimal m ++ 58 :: x = decimal n ++ 58 :: y) :
    m = n ∧ x = y := by
  obtain ⟨hd, hxy⟩ := append_cons_inj (colon_not_mem_decimal m) (colon_not_mem_decimal n) h
  exact ⟨decimal_injective hd, hxy⟩

theorem messageEventId_injective {m n : ℕ} (h : messageEventId m = messageEventId n) : m = n :=
  decimal_injective (List.append_cancel_left h)

def Clock.stamp (clock : Clock) : ℕ × ℕ × ℕ := (clock.nanos, clock.pid, clock.sequence)

theorem readEventId_stamp {clock clock' : Clock} {reader peer reader' peer' : ℕ}
    (h : readEventId clock reader peer = readEventId clock' reader' peer') :
    clock.stamp = clock'.stamp := by
  have hcolon : ascii ":" = [58] := by decide
  simp only [readEventId, hcolon, List.append_assoc, List.singleton_append] at h
  obtain ⟨-, h⟩ := decimal_colon_inj (List.append_cancel_left h)
  obtain ⟨-, h⟩ := decimal_colon_inj h
  obtain ⟨hnanos, h⟩ := decimal_colon_inj h
  obtain ⟨hpid, h⟩ := decimal_colon_inj h
  rw [Clock.stamp, Clock.stamp, hnanos, hpid, decimal_injective h]

theorem messageEventId_ne_readEventId (mid : ℕ) (clock : Clock) (reader peer : ℕ) :
    messageEventId mid ≠ readEventId clock reader peer := by
  intro h
  have hhead := congrArg List.head? h
  have hm : (messageEventId mid).head? = some 109 := by
    rw [messageEventId, List.head?_append]
    have : (ascii "message.created.v1:").head? = some 109 := by decide
    rw [this]
    rfl
  have hr : (readEventId clock reader peer).head? = some 100 := by
    simp only [readEventId, List.append_assoc]
    rw [List.head?_append]
    have : (ascii "dialog.read_advanced.v1:").head? = some 100 := by decide
    rw [this]
    rfl
  rw [hm, hr] at hhead
  cases hhead

end TinyImx.Local
