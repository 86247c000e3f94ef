import Mathlib.Algebra.Ring.Nat
import TinyImx.Lib.Run
import TinyImx.Net.Buffer

/-!
# The stored buffer

`Storage` is the three fields of `Buffer` without the order of the indices, with the arithmetic of
`size_t`.  As long as no sum wraps, its calls are those of the buffer, and its readable bytes are a
queue of bytes.
-/

namespace TinyImx.Net

structure Storage where
  data : List UInt8
  readerIndex : ℕ
  writerIndex : ℕ
  deriving DecidableEq

namespace Storage

def wrap (n : ℕ) : ℕ := n % 18446744073709551616

def sub (a b : ℕ) : ℕ := wrap (a + 18446744073709551616 - b)

def maxSize : ℕ := 9223372036854775807

def extraSize : ℕ := 65536

def make (initialSize : UInt64) : Option Storage :=
  let size := wrap (cheapPrepend + initialSize.toNat)
  if size ≤ maxSize then some ⟨List.replicate size 0, cheapPrepend, cheapPrepend⟩ else none

variable (s : Storage)

def readableBytes : ℕ := sub s.writerIndex s.readerIndex

def writableBytes : ℕ := sub s.data.length s.writerIndex

def prependableBytes : ℕ := s.readerIndex

def readable : List UInt8 := (s.data.drop s.readerIndex).take s.readableBytes

def hasWritten (length : ℕ) : Storage := { s with writerIndex := wrap (s.writerIndex + length) }

def unwrite (length : ℕ) : Storage := { s with writerIndex := sub s.writerIndex length }

def retrieveAll : Storage := { s with readerIndex := cheapPrepend, writerIndex := cheapPrepend }

def retrieve (length : ℕ) : Storage :=
  if length < s.readableBytes then { s with readerIndex := wrap (s.readerIndex + length) }
  else s.retrieveAll

def retrieveAsString (length : ℕ) : List UInt8 × Storage :=
  ((s.data.drop s.readerIndex).take length, s.retrieve length)

def resize (size : ℕ) : Option Storage :=
  if size ≤ maxSize then
    some { s with data := s.data.take size ++ List.replicate (size - s.data.length) 0 }
  else none

def makeSpace (length : ℕ) : Option Storage :=
  if wrap (s.writableBytes + s.prependableBytes) < wrap (length + cheapPrepend) then
    s.resize (wrap (s.writerIndex + length))
  else some
    { data := s.data.take cheapPrepend ++ s.readable ++ s.data.drop (cheapPrepend + s.readableBytes)
      readerIndex := cheapPrepend
      writerIndex := cheapPrepend + s.readableBytes }

def ensureWritableBytes (length : ℕ) : Option Storage :=
  if length ≤ s.writableBytes then some s else s.makeSpace length

def fill (bytes : List UInt8) : Storage :=
  { s with
    data := s.data.take s.writerIndex ++ bytes ++ s.data.drop (s.writerIndex + bytes.length) }

def append (bytes : List UInt8) : Option Storage :=
  if bytes = [] then some s
  else (s.ensureWritableBytes bytes.length).map fun s => (s.fill bytes).hasWritten bytes.length

/-- The bytes that `readv` may return: what fits, and the extra buffer where that is little. -/
def readRoom : ℕ := s.writableBytes + if s.writableBytes < extraSize then extraSize else 0

/-- `ReadFd`, with the bytes that `readv` read, if it did not fail. -/
def readFd : Option (List UInt8) → Option Storage
  | none => some s
  | some bytes =>
    let filled := s.fill (bytes.take s.writableBytes)
    if bytes.length ≤ s.writableBytes then some (filled.hasWritten bytes.length)
    else { filled with writerIndex := filled.data.length }.append (bytes.drop s.writableBytes)

end Storage

/-! ## The calls -/

inductive Op where
  | append (bytes : List UInt8)
  | retrieve (length : ℕ)
  | retrieveAsString (length : ℕ) (result : List UInt8)
  | retrieveAll
  | ensureWritableBytes (length : UInt64)
  /-- The caller stores bytes from `BeginWrite` on. -/
  | fill (bytes : List UInt8)
  /-- `HasWritten`, with the bytes that it makes readable. -/
  | hasWritten (bytes : List UInt8)
  | unwrite (length : ℕ)
  | readFd (bytes : Option (List UInt8))

inductive Storage.Step : Storage → Op → Storage → Prop
  | append {s s' : Storage} {bytes : List UInt8} : bytes.length ≤ maxSize →
      s.append bytes = some s' → Step s (.append bytes) s'
  | retrieve {s : Storage} {length : ℕ} : length ≤ s.readableBytes →
      Step s (.retrieve length) (s.retrieve length)
  | retrieveAsString {s : Storage} {length : ℕ} : length ≤ s.readableBytes →
      Step s (.retrieveAsString length (s.retrieveAsString length).1) (s.retrieveAsString length).2
  | retrieveAll {s : Storage} : Step s .retrieveAll s.retrieveAll
  | ensureWritableBytes {s s' : Storage} {length : UInt64} :
      s.ensureWritableBytes length.toNat = some s' → Step s (.ensureWritableBytes length) s'
  | fill {s : Storage} {bytes : List UInt8} : bytes.length ≤ s.writableBytes →
      Step s (.fill bytes) (s.fill bytes)
  | hasWritten {s : Storage} {length : ℕ} : length ≤ s.writableBytes →
      Step s (.hasWritten ((s.data.drop s.writerIndex).take length)) (s.hasWritten length)
  | unwrite {s : Storage} {length : ℕ} : length ≤ s.readableBytes →
      Step s (.unwrite length) (s.unwrite length)
  | readFd {s s' : Storage} {bytes : Option (List UInt8)} :
      (∀ bs ∈ bytes, bs.length ≤ s.readRoom) → s.readFd bytes = some s' → Step s (.readFd bytes) s'

inductive ByteQueue.Step : List UInt8 → Op → List UInt8 → Prop
  | append {q bytes : List UInt8} : Step q (.append bytes) (q ++ bytes)
  | retrieve {q : List UInt8} {length : ℕ} : length ≤ q.length →
      Step q (.retrieve length) (q.drop length)
  | retrieveAsString {q : List UInt8} {length : ℕ} : length ≤ q.length →
      Step q (.retrieveAsString length (q.take length)) (q.drop length)
  | retrieveAll {q : List UInt8} : Step q .retrieveAll []
  | ensureWritableBytes {q : List UInt8} {length : UInt64} : Step q (.ensureWritableBytes length) q
  | fill {q bytes : List UInt8} : Step q (.fill bytes) q
  | hasWritten {q bytes : List UInt8} : Step q (.hasWritten bytes) (q ++ bytes)
  | unwrite {q : List UInt8} {length : ℕ} : length ≤ q.length →
      Step q (.unwrite length) (q.take (q.length - length))
  | readFd {q : List UInt8} {bytes : Option (List UInt8)} :
      Step q (.readFd bytes) (q ++ bytes.getD [])

/-! ## Storage with its indices in order -/

def Buffer.unwrite (b : Buffer) (length : ℕ) (h : length ≤ b.readableBytes) : Buffer :=
  { b with
    writerIndex := b.writerIndex - length
    reader_le := by
      have := b.reader_le
      unfold Buffer.readableBytes at h
      omega
    writer_le := (Nat.sub_le _ _).trans b.writer_le }

theorem Buffer.readable_unwrite (b : Buffer) {length : ℕ} (h : length ≤ b.readableBytes) :
    (b.unwrite length h).readable = b.readable.take (b.readable.length - length) := by
  rw [Buffer.readable, Buffer.readable, Buffer.readableBytes, List.take_take, ← Buffer.readable,
    Buffer.length_readable]
  congr 1
  unfold Buffer.readableBytes Buffer.unwrite at *
  dsimp only
  omega

def Buffer.storage (b : Buffer) : Storage := ⟨b.data, b.readerIndex, b.writerIndex⟩

namespace Storage

variable {s s' : Storage} {b : Buffer} {length : ℕ} {bytes : List UInt8} {op : Op}

theorem sub_of_le {m n : ℕ} (h : n ≤ m) (hm : m ≤ maxSize) : sub m n = m - n := by
  unfold sub wrap
  unfold maxSize at hm
  omega

theorem wrap_of_le {n : ℕ} (h : n < 18446744073709551616) : wrap n = n := Nat.mod_eq_of_lt h

structure Of (b : Buffer) (s : Storage) : Prop where
  eq : s = b.storage
  size_le : b.data.length ≤ maxSize

namespace Of

theorem readableBytes (h : Of b s) : s.readableBytes = b.readableBytes := by
  obtain ⟨rfl, hsize⟩ := h
  exact sub_of_le b.reader_le (b.writer_le.trans hsize)

theorem writableBytes (h : Of b s) : s.writableBytes = b.writableBytes := by
  obtain ⟨rfl, hsize⟩ := h
  exact sub_of_le b.writer_le hsize

theorem readable (h : Of b s) : s.readable = b.readable := by
  rw [Storage.readable, h.readableBytes, h.eq]
  rfl

theorem retrieve (h : Of b s) (length : ℕ) : Of (b.retrieve length) (s.retrieve length) := by
  have hwriter := b.writer_le.trans h.size_le
  unfold maxSize at hwriter
  rw [Storage.retrieve, Buffer.retrieve, h.readableBytes]
  split
  · next hlt =>
    refine ⟨?_, h.size_le⟩
    unfold Buffer.readableBytes at hlt
    rw [h.eq, wrap_of_le (by show b.readerIndex + length < _; omega)]
    rfl
  · exact ⟨by rw [h.eq]; rfl, h.size_le⟩

theorem unwrite (h : Of b s) (hlength : length ≤ b.readableBytes) :
    Of (b.unwrite length hlength) (s.unwrite length) := by
  have hwriter := b.writer_le.trans h.size_le
  have hle : length ≤ b.writerIndex := hlength.trans (Nat.sub_le _ _)
  refine ⟨?_, h.size_le⟩
  rw [Storage.unwrite, h.eq]
  show (⟨b.data, b.readerIndex, sub b.writerIndex length⟩ : Storage) = _
  rw [sub_of_le hle hwriter]
  rfl

theorem write (h : Of b s) (hlength : bytes.length ≤ b.writableBytes) :
    Of (b.write bytes hlength) ((s.fill bytes).hasWritten bytes.length) := by
  have hwriter := b.writer_le
  have hsize := h.size_le
  have hlength' : bytes.length ≤ b.data.length - b.writerIndex := hlength
  have hdata : (b.write bytes hlength).data.length = b.data.length := by
    simp only [Buffer.write, List.length_append, List.length_take, List.length_drop]
    omega
  refine ⟨?_, hdata.le.trans hsize⟩
  unfold maxSize at hsize
  rw [Storage.hasWritten, Storage.fill, h.eq]
  dsimp only [Buffer.storage]
  rw [wrap_of_le (by omega)]
  rfl

end Of

/-- The sums of `EnsureWritableBytes` do not wrap, or that of the check does. -/
def Fits (s : Storage) : Op → Prop
  | .ensureWritableBytes length => s.writerIndex + length.toNat < 18446744073709551616 ∨
      18446744073709551616 ≤ length.toNat + cheapPrepend
  | _ => True

namespace Of

theorem compact (h : Of b s)
    (hroom : ¬ b.writableBytes + b.prependableBytes < length + cheapPrepend) :
    Of (b.makeSpace length)
      { data := s.data.take cheapPrepend ++ b.readable ++
          s.data.drop (cheapPrepend + b.readableBytes)
        readerIndex := cheapPrepend
        writerIndex := cheapPrepend + b.readableBytes } := by
  have hsize := h.size_le
  have hreader := b.reader_le
  have hwriter := b.writer_le
  have hprepend := b.prepend_le
  unfold Buffer.makeSpace
  rw [if_neg hroom, h.eq]
  refine ⟨rfl, le_trans (le_of_eq ?_) hsize⟩
  simp only [List.length_append, List.length_take, List.length_drop, Buffer.length_readable,
    Buffer.readableBytes]
  omega

theorem makeSpace (h : Of b s) (hlength : length < 18446744073709551616)
    (hfits : s.writerIndex + length < 18446744073709551616 ∨
      18446744073709551616 ≤ length + cheapPrepend)
    (hs : s.makeSpace length = some s') : ∃ n, Of (b.makeSpace n) s' ∧
      (length + cheapPrepend < 18446744073709551616 → n = length) := by
  have hsize := h.size_le
  have hreader := b.reader_le
  have hwriter := b.writer_le
  have hprepend := b.prepend_le
  have hsum : b.writableBytes + b.prependableBytes =
      b.data.length - b.writerIndex + b.readerIndex := rfl
  have hwrap : wrap (s.writableBytes + s.prependableBytes) =
      b.writableBytes + b.prependableBytes := by
    rw [h.writableBytes, h.eq]
    refine wrap_of_le ?_
    show b.writableBytes + b.prependableBytes < _
    unfold maxSize at hsize
    omega
  rw [Storage.makeSpace, hwrap, h.readable, h.readableBytes] at hs
  rcases Nat.lt_or_ge (length + cheapPrepend) 18446744073709551616 with hlt | hge
  · have hfits : b.writerIndex + length < 18446744073709551616 := by
      rcases hfits with hfits | hfits
      · rw [h.eq] at hfits
        exact hfits
      · omega
    refine ⟨length, ?_, fun _ => rfl⟩
    rw [wrap_of_le hlt] at hs
    split at hs
    · next hgrow =>
      rw [h.eq] at hs
      unfold resize at hs
      split at hs
      · next hle =>
        change wrap (b.writerIndex + length) ≤ maxSize at hle
        rw [wrap_of_le hfits] at hle
        cases hs
        unfold Buffer.makeSpace
        rw [if_pos hgrow]
        refine ⟨?_, ?_⟩
        · show (⟨b.data.take (wrap (b.writerIndex + length)) ++
            List.replicate (wrap (b.writerIndex + length) - b.data.length) 0, b.readerIndex,
            b.writerIndex⟩ : Storage) = _
          rw [wrap_of_le hfits, List.take_of_length_le (by omega)]
          rfl
        · rw [List.length_append, List.length_replicate]
          omega
      · cases hs
    · next hroom =>
      cases hs
      exact h.compact hroom
  · -- the check wraps to a number below the prepend area
    have hsmall : wrap (length + cheapPrepend) < cheapPrepend := by
      unfold wrap cheapPrepend at *
      omega
    refine ⟨0, ?_, fun hlt => by omega⟩
    rw [if_neg (by omega)] at hs
    cases hs
    exact h.compact (by omega)

theorem ensureWritableBytes (h : Of b s) (hlength : length < 18446744073709551616)
    (hfits : s.writerIndex + length < 18446744073709551616 ∨
      18446744073709551616 ≤ length + cheapPrepend)
    (hs : s.ensureWritableBytes length = some s') : ∃ b', Of b' s' ∧ b'.readable = b.readable ∧
      (length + cheapPrepend < 18446744073709551616 → length ≤ b'.writableBytes) := by
  rw [Storage.ensureWritableBytes, h.writableBytes] at hs
  split at hs
  · next hle =>
    cases hs
    exact ⟨b, h, rfl, fun _ => hle⟩
  · next hgt =>
    obtain ⟨n, hof, hn⟩ := h.makeSpace hlength hfits hs
    refine ⟨_, hof, b.readable_makeSpace n, fun hlt => ?_⟩
    have hroom := b.le_writableBytes_ensure length
    rw [Buffer.ensureWritableBytes, if_neg hgt] at hroom
    rwa [hn hlt]

theorem append (h : Of b s) (hlength : bytes.length ≤ maxSize) (hs : s.append bytes = some s') :
    ∃ b', Of b' s' ∧ b'.readable = b.readable ++ bytes := by
  unfold Storage.append at hs
  split at hs
  · next hnil =>
    grind
  · have hsize := h.size_le
    have hwriter := b.writer_le
    have hwriterIndex : s.writerIndex = b.writerIndex := by rw [h.eq]; rfl
    obtain ⟨s₁, hs₁, rfl⟩ := Option.map_eq_some_iff.1 hs
    unfold maxSize at hsize hlength
    obtain ⟨b₁, hof, hreadable, hroom⟩ := h.ensureWritableBytes (by omega) (.inl (by omega)) hs₁
    have hroom := hroom (by unfold cheapPrepend; omega)
    exact ⟨_, hof.write hroom, by rw [Buffer.readable_write, hreadable]⟩

theorem fill (h : Of b s) (hlength : bytes.length ≤ b.writableBytes) :
    ∃ b', Of b' (s.fill bytes) ∧ b'.readable = b.readable := by
  have hbytes : bytes.length ≤ (b.write bytes hlength).readableBytes := by
    rw [← Buffer.length_readable, Buffer.readable_write, List.length_append]
    exact Nat.le_add_left _ _
  refine ⟨(b.write bytes hlength).unwrite bytes.length hbytes, ⟨?_, (h.write hlength).size_le⟩, ?_⟩
  · rw [h.eq]
    show _ = (⟨_, b.readerIndex, b.writerIndex + bytes.length - bytes.length⟩ : Storage)
    rw [Nat.add_sub_cancel]
    rfl
  · rw [Buffer.readable_unwrite, Buffer.readable_write, List.length_append, Nat.add_sub_cancel,
      List.take_left]

theorem hasWritten (h : Of b s) (hlength : length ≤ b.writableBytes) :
    ∃ b', Of b' (s.hasWritten length) ∧
      b'.readable = b.readable ++ (s.data.drop s.writerIndex).take length := by
  have hdata : s.data = b.data ∧ s.writerIndex = b.writerIndex := by rw [h.eq]; exact ⟨rfl, rfl⟩
  have hwritable : b.writableBytes = b.data.length - b.writerIndex := rfl
  have htaken : ((s.data.drop s.writerIndex).take length).length = length := by
    rw [List.length_take, List.length_drop, hdata.1, hdata.2]
    omega
  have hroom : ((s.data.drop s.writerIndex).take length).length ≤ b.writableBytes :=
    htaken.le.trans hlength
  have hwrite := h.write hroom
  refine ⟨_, ?_, Buffer.readable_write hroom⟩
  -- the bytes are already where they would be stored
  have hfill : s.fill ((s.data.drop s.writerIndex).take length) = s := by
    unfold Storage.fill
    rw [htaken]
    congr 1
    rw [List.append_assoc, ← List.drop_drop, List.take_append_drop, List.take_append_drop]
  rwa [hfill, htaken] at hwrite

theorem readFd (h : Of b s) {result : Option (List UInt8)}
    (hroom : ∀ bytes ∈ result, bytes.length ≤ s.readRoom) (hs : s.readFd result = some s') :
    ∃ b', Of b' s' ∧ b'.readable = b.readable ++ result.getD [] := by
  cases result with
  | none =>
    cases hs
    exact ⟨b, h, (List.append_nil _).symm⟩
  | some bytes =>
    have hbytes := hroom bytes rfl
    rw [Storage.readFd, h.writableBytes] at hs
    split at hs
    · next hle =>
      cases hs
      rw [List.take_of_length_le hle]
      exact ⟨_, h.write hle, Buffer.readable_write hle⟩
    · next hgt =>
      have htaken : (bytes.take b.writableBytes).length = b.writableBytes := by
        rw [List.length_take]
        omega
      have hwrite := h.write htaken.le
      -- the writer index moves to the end of the vector
      have hend : ({ s.fill (bytes.take b.writableBytes) with
          writerIndex := (s.fill (bytes.take b.writableBytes)).data.length } : Storage) =
          (s.fill (bytes.take b.writableBytes)).hasWritten
            (bytes.take b.writableBytes).length := by
        have hindex : ((s.fill (bytes.take b.writableBytes)).hasWritten
            (bytes.take b.writableBytes).length).writerIndex =
            b.writerIndex + (bytes.take b.writableBytes).length :=
          congrArg Storage.writerIndex hwrite.eq
        have hwriter := b.writer_le
        have hwritable : b.writableBytes = b.data.length - b.writerIndex := rfl
        have hlength : (s.fill (bytes.take b.writableBytes)).data.length =
            b.writerIndex + (bytes.take b.writableBytes).length := by
          rw [h.eq]
          simp only [Storage.fill, Buffer.storage, List.length_append, List.length_drop, htaken]
          rw [List.length_take]
          omega
        rw [hlength, ← hindex]
        rfl
      rw [hend] at hs
      have hrest : (bytes.drop b.writableBytes).length ≤ maxSize := by
        rw [List.length_drop]
        rw [readRoom, h.writableBytes] at hbytes
        unfold maxSize
        unfold extraSize at hbytes
        split at hbytes <;> omega
      obtain ⟨b', hof, hreadable⟩ := hwrite.append hrest hs
      refine ⟨b', hof, ?_⟩
      rw [hreadable, Buffer.readable_write, List.append_assoc, List.take_append_drop]
      rfl

theorem retrieveAll (h : Of b s) : Of b.retrieveAll s.retrieveAll :=
  ⟨by rw [h.eq]; rfl, h.size_le⟩

end Of

/-! ## Whole runs -/

theorem Step.keeps (h : Of b s) (hs : Step s op s') (hfits : Fits s op) :
    ∃ b', Of b' s' ∧ ByteQueue.Step b.readable op b'.readable := by
  have hreadableBytes := h.readableBytes.trans b.length_readable.symm
  cases hs with
  | append hlength hs =>
    obtain ⟨b', hof, hreadable⟩ := h.append hlength hs
    exact ⟨b', hof, hreadable ▸ .append⟩
  | @retrieve length hlength =>
    refine ⟨_, h.retrieve length, ?_⟩
    rw [Buffer.readable_retrieve]
    exact .retrieve (hreadableBytes ▸ hlength)
  | @retrieveAsString length hlength =>
    refine ⟨_, h.retrieve length, ?_⟩
    have hresult : (s.retrieveAsString length).1 = b.readable.take length := by
      rw [← h.readable]
      show _ = List.take length (List.take s.readableBytes _)
      rw [List.take_take, Nat.min_eq_left hlength]
      rfl
    rw [hresult, Buffer.readable_retrieve]
    exact .retrieveAsString (hreadableBytes ▸ hlength)
  | retrieveAll =>
    refine ⟨_, h.retrieveAll, ?_⟩
    rw [show b.retrieveAll.readable = [] by simp [Buffer.readable, Buffer.readableBytes,
      Buffer.retrieveAll]]
    exact .retrieveAll
  | @ensureWritableBytes _ length hs =>
    obtain ⟨b', hof, hreadable, -⟩ := h.ensureWritableBytes length.toNat_lt hfits hs
    exact ⟨b', hof, hreadable ▸ .ensureWritableBytes⟩
  | fill hlength =>
    obtain ⟨b', hof, hreadable⟩ := h.fill (h.writableBytes ▸ hlength)
    exact ⟨b', hof, hreadable ▸ .fill⟩
  | hasWritten hlength =>
    obtain ⟨b', hof, hreadable⟩ := h.hasWritten (h.writableBytes ▸ hlength)
    exact ⟨b', hof, hreadable ▸ .hasWritten⟩
  | @unwrite length hlength =>
    have hlength' : length ≤ b.readableBytes := h.readableBytes ▸ hlength
    refine ⟨_, h.unwrite hlength', ?_⟩
    rw [Buffer.readable_unwrite]
    exact .unwrite (hreadableBytes ▸ hlength)
  | readFd hroom hs =>
    obtain ⟨b', hof, hreadable⟩ := h.readFd hroom hs
    exact ⟨b', hof, hreadable ▸ .readFd⟩

theorem Step.cuts (h : Of b s) (hs : Step s op s') (hfits : ¬ Fits s op) :
    s'.data.length < s'.writerIndex := by
  cases hs with
  | @ensureWritableBytes _ length hs =>
    have hsize := h.size_le
    have hreader := b.reader_le
    have hwriter := b.writer_le
    simp only [Fits, h.eq, not_or, not_lt, not_le] at hfits
    change 18446744073709551616 ≤ b.writerIndex + length.toNat ∧ _ at hfits
    have hwritable : b.writableBytes = b.data.length - b.writerIndex := rfl
    have hwrap : wrap (b.writableBytes + b.readerIndex) = b.writableBytes + b.readerIndex :=
      wrap_of_le (by unfold maxSize at hsize; omega)
    have hcut : wrap (b.writerIndex + length.toNat) < b.writerIndex := by
      unfold wrap
      unfold maxSize at hsize
      omega
    rw [Storage.ensureWritableBytes, Storage.makeSpace, h.writableBytes, wrap_of_le hfits.2,
      if_neg (by unfold maxSize at hsize; omega), h.eq] at hs
    change (if wrap (b.writableBytes + b.readerIndex) < _ then _ else _) = _ at hs
    rw [hwrap, if_pos (by unfold maxSize at hsize; omega), resize,
      if_pos (show wrap (b.storage.writerIndex + length.toNat) ≤ maxSize from
        hcut.le.trans (hwriter.trans hsize))] at hs
    cases hs
    show (b.data.take (wrap (b.writerIndex + length.toNat)) ++ List.replicate
      (wrap (b.writerIndex + length.toNat) - b.data.length) 0).length < b.writerIndex
    rw [List.length_append, List.length_take, List.length_replicate]
    omega
  | _ => exact absurd trivial hfits

structure IsQueue (ops : List Op) (s : Storage) : Prop where
  prepend_le : cheapPrepend ≤ s.readerIndex
  reader_le : s.readerIndex ≤ s.writerIndex
  writer_le : s.writerIndex ≤ s.data.length
  refines : Run ByteQueue.Step [] ops s.readable

/-- A buffer is a queue of bytes as long as the sizes of its vector do not wrap; when one wraps, the
vector ends before the writer index. -/
theorem buffer_is_queue {initialSize : UInt64} {s₀ : Storage} (hmake : make initialSize = some s₀) :
    (cheapPrepend + initialSize.toNat < 18446744073709551616 → ∀ (ops : List Op) (s : Storage),
      Run (fun s op s' => Step s op s' ∧ Fits s op) s₀ ops s → IsQueue ops s ∧
        ∀ op s', Step s op s' → ¬ Fits s op → s'.data.length < s'.writerIndex) ∧
    (18446744073709551616 ≤ cheapPrepend + initialSize.toNat →
      s₀.data.length < s₀.writerIndex) := by
  unfold make at hmake
  dsimp only at hmake
  split at hmake
  · next hle =>
    cases hmake
    refine ⟨fun hlt ops s hrun => ?_, fun hge => ?_⟩
    · have hof : Of (Buffer.make initialSize.toNat)
          ⟨List.replicate (wrap (cheapPrepend + initialSize.toNat)) 0, cheapPrepend,
            cheapPrepend⟩ := by
        rw [wrap_of_le hlt] at hle ⊢
        exact ⟨rfl, by simpa [Buffer.make] using hle⟩
      obtain ⟨b, hof, hqueue⟩ := hrun.history
        (I := fun ops s => ∃ b, Of b s ∧ Run ByteQueue.Step [] ops b.readable)
        (fun _ _ _ _ h hstep => by
          obtain ⟨b, hof, hqueue⟩ := h
          obtain ⟨b', hof', hstep'⟩ := hstep.1.keeps hof hstep.2
          exact ⟨b', hof', hqueue.snoc hstep'⟩)
        ⟨_, hof, by rw [Buffer.readable_make]; exact .nil _⟩
      refine ⟨?_, fun op s' hstep => hstep.cuts hof⟩
      rw [← hof.readable] at hqueue
      obtain ⟨rfl, -⟩ := hof
      exact ⟨b.prepend_le, b.reader_le, b.writer_le, hqueue⟩
    · have hlt := initialSize.toNat_lt
      show (List.replicate _ _).length < cheapPrepend
      rw [List.length_replicate]
      unfold wrap cheapPrepend at *
      omega
  · cases hmake

theorem buffer_is_queue_sample : ∃ (s₀ s : Storage) (ops : List Op), make 4 = some s₀ ∧
    Run (fun s op s' => Step s op s' ∧ Fits s op) s₀ ops s ∧ s.readable = [2, 3, 4] ∧
      IsQueue ops s := by
  have hmake : make 4 = some ⟨List.replicate 12 0, 8, 8⟩ := rfl
  have h : Run (fun s op s' => Step s op s' ∧ Fits s op) ⟨List.replicate 12 0, 8, 8⟩ [] _ := .nil _
  have h := h.snoc (And.intro (@Step.append _ ⟨[0, 0, 0, 0, 0, 0, 0, 0, 1, 2, 3, 4], 8, 12⟩
    [1, 2, 3, 4] (by decide) (by decide +kernel)) trivial)
  have h := h.snoc (And.intro (@Step.retrieve _ 1 (by decide +kernel)) trivial)
  have h := h.snoc (And.intro (@Step.ensureWritableBytes _
    ⟨[0, 0, 0, 0, 0, 0, 0, 0, 2, 3, 4, 4], 8, 11⟩ 1 (by decide +kernel)) (.inl (by decide +kernel)))
  exact ⟨_, _, _, hmake, h, by decide +kernel, ((buffer_is_queue hmake).1 (by decide) _ _ h).1⟩

/-- The new size wraps to zero, and the vector loses the byte that is readable. -/
theorem storage_cut_off : ¬ ∀ (initialSize : UInt64) (s₀ s : Storage) (ops : List Op),
    make initialSize = some s₀ → Run Step s₀ ops s → IsQueue ops s := by
  intro hall
  have h : Run Step ⟨List.replicate 10 0, 8, 8⟩ [] _ := .nil _
  have h := h.snoc (@Step.append _ ⟨[0, 0, 0, 0, 0, 0, 0, 0, 7, 0], 8, 9⟩ [7] (by decide)
    (by decide +kernel))
  have h := h.snoc (@Step.ensureWritableBytes _ ⟨[], 8, 9⟩ 18446744073709551607
    (by decide +kernel))
  exact absurd (hall 2 _ _ _ rfl h).writer_le (by decide)

end Storage

end TinyImx.Net
