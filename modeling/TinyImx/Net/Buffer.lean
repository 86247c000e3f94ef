import Mathlib.Order.Lattice
import Mathlib.Data.List.Basic

/-!
# The byte buffer of a connection

`Buffer` keeps its readable bytes between two indices of a vector, behind a prepend area.  What the
operations do to the readable bytes does not depend on where they lie or on how the vector grows.
-/

namespace TinyImx.Net

def cheapPrepend : ℕ := 8

structure Buffer where
  data : List UInt8
  readerIndex : ℕ
  writerIndex : ℕ
  prepend_le : cheapPrepend ≤ readerIndex
  reader_le : readerIndex ≤ writerIndex
  writer_le : writerIndex ≤ data.length

namespace Buffer

def make (initialSize : ℕ) : Buffer where
  data := List.replicate (cheapPrepend + initialSize) 0
  readerIndex := cheapPrepend
  writerIndex := cheapPrepend
  prepend_le := le_refl _
  reader_le := le_refl _
  writer_le := by simp

variable (b : Buffer)

def readableBytes : ℕ := b.writerIndex - b.readerIndex

def writableBytes : ℕ := b.data.length - b.writerIndex

def prependableBytes : ℕ := b.readerIndex

def readable : List UInt8 := (b.data.drop b.readerIndex).take b.readableBytes

def retrieveAll : Buffer where
  data := b.data
  readerIndex := cheapPrepend
  writerIndex := cheapPrepend
  prepend_le := le_refl _
  reader_le := le_refl _
  writer_le := (b.prepend_le.trans b.reader_le).trans b.writer_le

def retrieve (length : ℕ) : Buffer :=
  if h : length < b.readableBytes then
    { b with
      readerIndex := b.readerIndex + length
      prepend_le := b.prepend_le.trans (Nat.le_add_right _ _)
      reader_le := by
        unfold readableBytes at h
        omega }
  else b.retrieveAll

def retrieveAsString (length : ℕ) : List UInt8 × Buffer := (b.readable.take length, b.retrieve length)

/-- `MakeSpace`: the vector grows, or the readable bytes move to its front. -/
def makeSpace (length : ℕ) : Buffer :=
  if b.writableBytes + b.prependableBytes < length + cheapPrepend then
    { b with
      data := b.data ++ List.replicate (b.writerIndex + length - b.data.length) 0
      writer_le := by
        rw [List.length_append]
        exact b.writer_le.trans (Nat.le_add_right _ _) }
  else
    { data := b.data.take cheapPrepend ++ b.readable ++ b.data.drop (cheapPrepend + b.readableBytes)
      readerIndex := cheapPrepend
      writerIndex := cheapPrepend + b.readableBytes
      prepend_le := le_refl _
      reader_le := Nat.le_add_right _ _
      writer_le := by
        have h₁ := b.prepend_le
        have h₂ := b.reader_le
        have h₃ := b.writer_le
        simp only [readable, readableBytes, List.length_append, List.length_take, List.length_drop]
        omega }

def ensureWritableBytes (length : ℕ) : Buffer :=
  if length ≤ b.writableBytes then b else b.makeSpace length

def write (bytes : List UInt8) (h : bytes.length ≤ b.writableBytes) : Buffer where
  data := b.data.take b.writerIndex ++ bytes ++ b.data.drop (b.writerIndex + bytes.length)
  readerIndex := b.readerIndex
  writerIndex := b.writerIndex + bytes.length
  prepend_le := b.prepend_le
  reader_le := b.reader_le.trans (Nat.le_add_right _ _)
  writer_le := by
    have h₁ := b.writer_le
    have h₂ : bytes.length ≤ b.data.length - b.writerIndex := h
    simp only [List.length_append, List.length_take, List.length_drop]
    omega

variable {b} {length : ℕ} {bytes : List UInt8}

theorem le_writableBytes_ensure (b : Buffer) (length : ℕ) :
    length ≤ (b.ensureWritableBytes length).writableBytes := by
  unfold ensureWritableBytes
  split
  · next h => exact h
  · next h =>
    have h₁ := b.prepend_le
    have h₂ := b.reader_le
    have h₃ := b.writer_le
    unfold makeSpace
    split
    · simp only [writableBytes, List.length_append, List.length_replicate] at h ⊢
      omega
    · next hroom =>
      simp only [writableBytes, prependableBytes, readable, readableBytes, List.length_append,
        List.length_take, List.length_drop] at h hroom ⊢
      omega

def append (b : Buffer) (bytes : List UInt8) : Buffer :=
  if bytes = [] then b
  else (b.ensureWritableBytes bytes.length).write bytes (le_writableBytes_ensure b bytes.length)

/-! ## The readable bytes -/

@[simp] theorem length_readable (b : Buffer) : b.readable.length = b.readableBytes := by
  have h₁ := b.reader_le
  have h₂ := b.writer_le
  simp only [readable, readableBytes, List.length_take, List.length_drop]
  omega

@[simp] theorem readable_make (initialSize : ℕ) : (make initialSize).readable = [] := by
  simp [readable, readableBytes, make]

@[simp] theorem readable_retrieve (b : Buffer) (length : ℕ) :
    (b.retrieve length).readable = b.readable.drop length := by
  unfold retrieve
  split
  · next h =>
    unfold readable readableBytes at *
    rw [List.drop_take, List.drop_drop]
    congr 1
    dsimp only
    omega
  · next h =>
    rw [List.drop_eq_nil_of_le (by rw [length_readable]; omega)]
    simp [readable, readableBytes, retrieveAll]

theorem readable_makeSpace (b : Buffer) (length : ℕ) : (b.makeSpace length).readable = b.readable := by
  have h₁ := b.prepend_le
  have h₂ := b.reader_le
  have h₃ := b.writer_le
  unfold makeSpace
  split
  · unfold readable readableBytes
    dsimp only
    grind
  · have hlen : (b.data.take cheapPrepend).length = cheapPrepend := by
      rw [List.length_take]
      omega
    show ((b.data.take cheapPrepend ++ b.readable ++ _).drop cheapPrepend).take
      (cheapPrepend + b.readableBytes - cheapPrepend) = b.readable
    rw [List.append_assoc, List.drop_left' hlen, Nat.add_sub_cancel_left,
      List.take_left' (length_readable b)]

theorem readable_ensure (b : Buffer) (length : ℕ) :
    (b.ensureWritableBytes length).readable = b.readable := by
  unfold ensureWritableBytes
  split
  · rfl
  · exact readable_makeSpace b length

theorem readable_write (h : bytes.length ≤ b.writableBytes) :
    (b.write bytes h).readable = b.readable ++ bytes := by
  have h₁ := b.reader_le
  have h₂ := b.writer_le
  have hlen : (b.data.take b.writerIndex).length = b.writerIndex := by
    rw [List.length_take]
    omega
  have hreadable : b.readable = (b.data.take b.writerIndex).drop b.readerIndex := by
    rw [List.drop_take]
    rfl
  show ((b.data.take b.writerIndex ++ bytes ++ b.data.drop (b.writerIndex + bytes.length)).drop
    b.readerIndex).take (b.writerIndex + bytes.length - b.readerIndex) = b.readable ++ bytes
  rw [List.append_assoc, List.drop_append_of_le_length (by omega), ← hreadable,
    ← List.append_assoc, List.take_left']
  rw [List.length_append, length_readable, readableBytes]
  omega

@[simp] theorem readable_append (b : Buffer) (bytes : List UInt8) :
    (b.append bytes).readable = b.readable ++ bytes := by
  unfold append
  split
  · next h => rw [h, List.append_nil]
  · rw [readable_write, readable_ensure]

end Buffer

end TinyImx.Net
