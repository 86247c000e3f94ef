import Mathlib.Algebra.Ring.Nat
import Mathlib.Data.List.DropRight
import TinyImx.Lib.Search
import TinyImx.Local.Types

/-!
# Reading the text of an HTTP message

The functions of the standard library with which `HttpCodec` and `HttpResponseParser` take a header
apart: lines and words of a stream in the classic locale, `from_chars`, and the two helpers `Lower`
and `Trim` that both files define.
-/

namespace TinyImx.Intelligence

open Local (Bytes ascii)

def cr : UInt8 := 13
def lf : UInt8 := 10

def crlf : Bytes := [cr, lf]

def blankLine : Bytes := crlf ++ crlf

def isSpace (c : UInt8) : Bool := c = 32 ∨ (9 ≤ c ∧ c ≤ 13)

def lower (value : Bytes) : Bytes := value.map fun c => if 65 ≤ c ∧ c ≤ 90 then c + 32 else c

def trim (value : Bytes) : Bytes := (value.dropWhile isSpace).rdropWhile isSpace

/-- What `std::getline` gives until it fails: the text between line feeds, without an empty one at
the end. -/
def getlines : Bytes → List Bytes
  | [] => []
  | c :: rest =>
    if c = lf then [] :: getlines rest
    else match getlines rest with
      | [] => [[c]]
      | line :: lines => (c :: line) :: lines

def popCr (line : Bytes) : Bytes := if line.getLast? = some cr then line.dropLast else line

def extractWord (text : Bytes) : Option (Bytes × Bytes) :=
  let text := text.dropWhile isSpace
  if text = [] then none
  else some (text.takeWhile fun c => !isSpace c, text.dropWhile fun c => !isSpace c)

def digitValue (base : ℕ) (c : UInt8) : Option ℕ :=
  let value :=
    if 48 ≤ c ∧ c ≤ 57 then c.toNat - 48
    else if 97 ≤ c ∧ c ≤ 122 then c.toNat - 87
    else if 65 ≤ c ∧ c ≤ 90 then c.toNat - 55
    else base
  if value < base then some value else none

def digits (base : ℕ) (text : Bytes) : Option ℕ :=
  text.foldlM (fun n c => (digitValue base c).map (n * base + ·)) 0

/-- `std::from_chars` into a `std::size_t` that has to use the whole text. -/
def fromChars (base : ℕ) (text : Bytes) : Option UInt64 :=
  if text = [] then none
  else match digits base text with
    | some n => if n < 2 ^ 64 then some (UInt64.ofNat n) else none
    | none => none

def headerValue (headers : List (Bytes × Bytes)) (key : Bytes) : Option Bytes :=
  (headers.find? fun header => header.1 = key).map Prod.snd

def header (headers : List (Bytes × Bytes)) (name : Bytes) : Bytes :=
  (headerValue headers (lower name)).getD []

def maxSize : ℕ := 2 ^ 63 - 1

inductive Fault where
  /-- `std::length_error`. -/
  | lengthError
  | outOfBounds
  /-- A sum or a difference that is not a `std::size_t`. -/
  | overflow
  deriving DecidableEq

/-- `append(data + offset, length)` to `value`, and `assign` where `value` is empty. -/
def copy (value data : Bytes) (offset length : ℕ) : Except Fault Bytes :=
  if maxSize < value.length + length then .error .lengthError
  else if data.length < offset + length then .error .outOfBounds
  else .ok (value ++ (data.drop offset).take length)

theorem copy_eq_ok {value data result : Bytes} {offset length : ℕ} :
    copy value data offset length = .ok result ↔
      value.length + length ≤ maxSize ∧ offset + length ≤ data.length ∧
        result = value ++ (data.drop offset).take length := by
  unfold copy
  split
  · next h => simp; omega
  · next h =>
    grind

end TinyImx.Intelligence
