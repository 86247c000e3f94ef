import TinyImx.Lib.Ordered
import TinyImx.Local.Impl

/-!
# The bytes of the keys

`Hex`, `Unhex` and the key builders, and the engine's iterator: the entries of the map in the order
of their keys' bytes.  The sixteen lowercase digits of a number order as the number does, so a
family of keys `prefix ++ hex n` lists its numbers in increasing order.
-/

namespace TinyImx.Local

open Ordered

/-! ## Hex -/

def hexDigit (n : ℕ) : UInt8 := (ascii "0123456789abcdef").getD n 48

def hexWord : ℕ → ℕ → Bytes
  | 0, _ => []
  | w + 1, n => hexWord w (n / 16) ++ [hexDigit (n % 16)]

def hex (n : ℕ) : Bytes := hexWord 16 n

def digitValue (c : UInt8) : ℕ := if c ≤ 57 then c.toNat - 48 else c.toNat - 97 + 10

def unhexLoop : Bytes → ℕ → Except Failure ℕ
  | [], n => .ok n
  | c :: rest, n => do
    require ((48 ≤ c && c ≤ 57) || (97 ≤ c && c ≤ 102)) .invalidRecord "invalid local numeric key"
    unhexLoop rest (n * 16 % 2 ^ 64 + digitValue c)

def unhex (s : Bytes) : Except Failure ℕ := do
  require (s.length = 16) .invalidRecord "invalid local numeric key"
  unhexLoop s 0

theorem hexDigit_lt : ∀ a < 16, ∀ b < 16, a < b → hexDigit a < hexDigit b := by decide

theorem hexDigit_lt_tilde : ∀ a < 16, hexDigit a < 126 := by decide

theorem unhexLoop_digit : ∀ d < 16, (48 ≤ hexDigit d && hexDigit d ≤ 57 ||
    97 ≤ hexDigit d && hexDigit d ≤ 102) = true ∧ digitValue (hexDigit d) = d := by decide

@[simp] theorem hexWord_length (w n : ℕ) : (hexWord w n).length = w := by
  induction w generalizing n with
  | zero => rfl
  | succ w ih => simp [hexWord, ih]

@[simp] theorem hex_length (n : ℕ) : (hex n).length = 16 := hexWord_length 16 n

theorem hexWord_digit {w n : ℕ} {c : UInt8} (hc : c ∈ hexWord w n) : c < 126 := by
  induction w generalizing n with
  | zero => cases hc
  | succ w ih =>
    rw [hexWord, List.mem_append, List.mem_singleton] at hc
    rcases hc with hc | rfl
    · exact ih hc
    · exact hexDigit_lt_tilde _ (Nat.mod_lt _ (by decide))

theorem hex_lt_tilde (n : ℕ) : hex n < ascii "~" := by
  cases h : hex n with
  | nil =>
    have hlen := hex_length n
    rw [h] at hlen
    cases hlen
  | cons c rest =>
    have hc : c ∈ hexWord 16 n := by
      rw [← hex, h]
      exact List.mem_cons_self
    exact List.cons_lt_cons_iff.2 (.inl (hexWord_digit hc))

theorem hexWord_lt {w m n : ℕ} (hn : n < 16 ^ w) (h : m < n) : hexWord w m < hexWord w n := by
  induction w generalizing m n with
  | zero => omega
  | succ w ih =>
    rw [Nat.pow_succ] at hn
    rcases (Nat.div_le_div_right (c := 16) h.le).lt_or_eq with hlt | heq
    · exact append_lt_append_of_lt (by simp) (ih (by omega) hlt) _ _
    · rw [hexWord, hexWord, heq, append_lt_append_iff, List.cons_lt_cons_iff]
      exact .inl (hexDigit_lt _ (Nat.mod_lt _ (by decide)) _ (Nat.mod_lt _ (by decide)) (by omega))

theorem hex_lt_iff {m n : ℕ} (hm : m < 2 ^ 64) (hn : n < 2 ^ 64) : hex m < hex n ↔ m < n := by
  refine ⟨fun h => ?_, hexWord_lt hn⟩
  by_contra hle
  rcases (not_lt.1 hle).lt_or_eq with hlt | rfl
  · exact List.lt_asymm h (hexWord_lt hm hlt)
  · exact List.lt_irrefl _ h

theorem hex_inj {m n : ℕ} (hm : m < 2 ^ 64) (hn : n < 2 ^ 64) (h : hex m = hex n) : m = n := by
  rcases lt_trichotomy m n with hlt | heq | hlt
  · have hlt' := (hex_lt_iff hm hn).2 hlt
    rw [h] at hlt'
    exact absurd hlt' (List.lt_irrefl _)
  · exact heq
  · have hlt' := (hex_lt_iff hn hm).2 hlt
    rw [h] at hlt'
    exact absurd hlt' (List.lt_irrefl _)

theorem unhexLoop_append (a b : Bytes) (n : ℕ) :
    unhexLoop (a ++ b) n = unhexLoop a n >>= unhexLoop b := by
  induction a generalizing n with
  | nil => rfl
  | cons c a ih =>
    rw [List.cons_append, unhexLoop, unhexLoop, bind_assoc]
    exact bind_congr fun _ => ih _

theorem unhexLoop_hexWord {w n : ℕ} (hw : w ≤ 16) (hn : n < 16 ^ w) :
    unhexLoop (hexWord w n) 0 = .ok n := by
  induction w generalizing n with
  | zero =>
    obtain rfl : n = 0 := by omega
    rfl
  | succ w ih =>
    have hn' : n < 2 ^ 64 := hn.trans_le (Nat.pow_le_pow_right (by decide) hw)
    rw [Nat.pow_succ] at hn
    obtain ⟨hdigit, hvalue⟩ := unhexLoop_digit (n % 16) (Nat.mod_lt _ (by decide))
    rw [hexWord, unhexLoop_append, ih (by omega) (by omega)]
    have hsum : n / 16 * 16 % 2 ^ 64 + n % 16 = n := by
      grind
    have hlast : unhexLoop [hexDigit (n % 16)] (n / 16) =
        .ok (n / 16 * 16 % 2 ^ 64 + digitValue (hexDigit (n % 16))) := by
      simp only [unhexLoop, hdigit, require, if_true]
      rfl
    rw [hvalue, hsum] at hlast
    exact hlast

theorem unhex_hex {n : ℕ} (hn : n < 2 ^ 64) : unhex (hex n) = .ok n := by
  have h := unhexLoop_hexWord (w := 16) le_rfl hn
  simpa [unhex, require, hex, bind, Except.bind] using h

/-! ## Key builders -/

def dialogPrefix (a b : ℕ) : Bytes :=
  ascii "H/" ++ hex (min a b) ++ ascii "/" ++ hex (max a b) ++ ascii "/"

def pendingPrefix (receiver : ℕ) : Bytes := ascii "P/" ++ hex receiver ++ ascii "/"

/-- The key as the engine stores it: `MessageKey`, `CidKey`, `DialogUnreadKey` and the like. -/
def Key.bytes : Key → Bytes
  | .high => ascii "meta/high"
  | .M mid => ascii "M/" ++ hex mid
  | .I fromUser canonical => ascii "I/" ++ hex fromUser ++ ascii "/" ++ canonical
  | .K mid => ascii "K/" ++ hex mid
  | .U user => ascii "U/" ++ hex user
  | .H a b mid => ascii "H/" ++ hex a ++ ascii "/" ++ hex b ++ ascii "/" ++ hex mid
  | .P receiver mid => ascii "P/" ++ hex receiver ++ ascii "/" ++ hex mid
  | .C user peer => ascii "C/" ++ hex user ++ ascii "/" ++ hex peer
  | .N receiver => ascii "N/" ++ hex receiver
  | .D receiver peer => ascii "D/" ++ hex receiver ++ ascii "/" ++ hex peer
  | .Q receiver => ascii "Q/" ++ hex receiver
  | .R receiver peer => ascii "R/" ++ hex receiver ++ ascii "/" ++ hex peer
  | .E id => ascii "E/" ++ id
  | .A id => ascii "A/" ++ id
  | .F id => ascii "F/" ++ id

def Key.tag : Key → UInt8
  | .high => 109
  | .M _ => 77
  | .I .. => 73
  | .K _ => 75
  | .U _ => 85
  | .H .. => 72
  | .P .. => 80
  | .C .. => 67
  | .N _ => 78
  | .D .. => 68
  | .Q _ => 81
  | .R .. => 82
  | .E _ => 69
  | .A _ => 65
  | .F _ => 70

theorem Key.bytes_head (k : Key) : k.bytes.head? = some k.tag := by
  cases k <;> rfl

theorem Key.tag_of_prefix {k : Key} {c : UInt8} {p : Bytes} (h : c :: p <+: k.bytes) : k.tag = c := by
  obtain ⟨x, hx⟩ := h
  have hhead := k.bytes_head
  grind

/-! ## The engine's iterator -/

abbrev Entry := Sigma Key.Val

def Entry.key (e : Entry) : Bytes := e.1.bytes

def iterator (db : Db) : List Entry := db.entries.insertionSort fun a b => a.1.bytes ≤ b.1.bytes

theorem iterator_sorted (db : Db) : Sorted Entry.key (iterator db) := by
  exact List.pairwise_insertionSort _ _

theorem iterator_perm (db : Db) : (iterator db).Perm db.entries := List.perm_insertionSort _ _

theorem mem_iterator {db : Db} {e : Entry} : e ∈ iterator db ↔ db.lookup e.1 = some e.2 := by
  rw [(iterator_perm db).mem_iff]
  exact AList.mem_lookup_iff.symm

/-! ## Families of numbers -/

/-- The keys of `db` with the prefix `p` are those `f` reads a number off, and the number's digits are
the rest of the key. -/
structure Family (db : Db) (p : Bytes) (f : Key → Option ℕ) : Prop where
  mem : ∀ k ∈ db, p <+: k.bytes → (f k).isSome
  bytes : ∀ k ∈ db, ∀ n, f k = some n → k.bytes = p ++ hex n ∧ n < 2 ^ 64
  inj : ∀ k k' n, f k = some n → f k' = some n → k = k'

def Entry.number (f : Key → Option ℕ) (e : Entry) : ℕ := (f e.1).getD 0

theorem scan_increasing {db : Db} {f : Key → Option ℕ}
    (hf : ∀ k k' n, f k = some n → f k' = some n → k = k') :
    (Kv.scan f db).Pairwise (· < ·) := by
  have hle : (Kv.scan f db).Pairwise (· ≤ ·) := List.pairwise_insertionSort _ _
  exact (hle.and (Kv.scan_nodup db hf)).imp fun h => lt_of_le_of_ne h.1 h.2

namespace Family

variable {db : Db} {p : Bytes} {f : Key → Option ℕ}

theorem key_mem {e : Entry} (he : e ∈ iterator db) : e.1 ∈ db :=
  AList.lookup_isSome.1 (Option.isSome_of_eq_some (mem_iterator.1 he))

theorem entry (h : Family db p f) {e : Entry} (he : e ∈ iterator db) (hp : p <+: e.key) :
    f e.1 = some (e.number f) ∧ e.key = p ++ hex (e.number f) ∧ e.number f < 2 ^ 64 := by
  obtain ⟨n, hn⟩ := Option.isSome_iff_exists.1 (h.mem e.1 (key_mem he) hp)
  have hnum : e.number f = n := by rw [Entry.number, hn]; rfl
  rw [hnum]
  exact ⟨hn, h.bytes e.1 (key_mem he) n hn⟩

theorem keys_nodup (db : Db) : (iterator db).Pairwise fun a b => a.1 ≠ b.1 := by
  have h : (db.entries.map Sigma.fst).Nodup := db.nodupKeys
  exact List.pairwise_map.1 ((((iterator_perm db).map Sigma.fst).nodup_iff).2 h)

theorem distinct (h : Family db p f) : Distinct Entry.key p (iterator db) := by
  refine (keys_nodup db).imp_of_mem fun {a b} ha hb hne hab => hne ?_
  obtain ⟨hfa, hka, hlta⟩ := h.entry ha hab.1
  obtain ⟨hfb, hkb, hltb⟩ := h.entry hb (hab.2 ▸ hab.1)
  have hnum : a.number f = b.number f :=
    hex_inj hlta hltb (List.append_cancel_left (hka.symm.trans (hab.2.trans hkb)))
  exact h.inj _ _ _ hfa (hnum ▸ hfb)

theorem map_filter (h : Family db p f) {c : Bytes → Bool} {d : ℕ → Bool}
    (hcd : ∀ n < 2 ^ 64, c (p ++ hex n) = d n) :
    ((iterator db).filter fun e => startsWith Entry.key p e && c e.key).map (Entry.number f) =
      (Kv.scan f db).filter d := by
  refine List.Pairwise.eq_of_mem_iff ?_ ((scan_increasing h.inj).sublist List.filter_sublist) fun n => ?_
  · rw [List.pairwise_map]
    refine (((iterator_sorted db).and h.distinct).sublist List.filter_sublist).imp_of_mem
      fun {a b} ha hb hab => ?_
    obtain ⟨ha, hpa⟩ := List.mem_filter.1 ha
    obtain ⟨hb, hpb⟩ := List.mem_filter.1 hb
    have hpa := startsWith_iff.1 (Bool.and_eq_true_iff.1 hpa).1
    have hpb := startsWith_iff.1 (Bool.and_eq_true_iff.1 hpb).1
    obtain ⟨-, hka, hlta⟩ := h.entry ha hpa
    obtain ⟨-, hkb, hltb⟩ := h.entry hb hpb
    have hlt : a.key < b.key := lt_iff_le_and_ne.2 ⟨hab.1, fun heq => hab.2 ⟨hpa, heq⟩⟩
    rw [hka, hkb, append_lt_append_iff, hex_lt_iff hlta hltb] at hlt
    exact hlt
  · rw [List.mem_map, List.mem_filter, Kv.mem_scan]
    constructor
    · rintro ⟨e, he, rfl⟩
      obtain ⟨he, htest⟩ := List.mem_filter.1 he
      obtain ⟨hp, hc⟩ := Bool.and_eq_true_iff.1 htest
      obtain ⟨hf, hk, hlt⟩ := h.entry he (startsWith_iff.1 hp)
      refine ⟨⟨e.1, key_mem he, hf⟩, ?_⟩
      rw [← hcd _ hlt, ← hk]
      exact hc
    · rintro ⟨⟨k, hk, hf⟩, hd⟩
      obtain ⟨hbytes, hlt⟩ := h.bytes k hk n hf
      obtain ⟨v, hv⟩ := Option.isSome_iff_exists.1 (AList.lookup_isSome.2 hk)
      refine ⟨⟨k, v⟩, List.mem_filter.2 ⟨mem_iterator.2 hv, ?_⟩, by simp [Entry.number, hf]⟩
      have hkey : Entry.key ⟨k, v⟩ = p ++ hex n := hbytes
      rw [hkey, hcd n hlt, hd, Bool.and_true]
      exact startsWith_iff.2 (hkey ▸ List.prefix_append p _)

end Family

end TinyImx.Local
