import Mathlib.Data.Rat.Defs
import Mathlib.Tactic.Common

/-!
# JSON values

The values that a JSON library gives a program, with the type tests and conversions of a library for
C++: an integer keeps whether it was read as signed, a conversion to a number casts, and a conversion of
a value of another type raises a type error.
-/

inductive Json
  | null
  | boolean (value : Bool)
  | integer (value : Int64)
  | unsigned (value : UInt64)
  | real (value : ℚ)
  | string (value : List UInt8)
  | array (items : List Json)
  | object (members : List (List UInt8 × Json))

namespace Json

/-! ## Types -/

def isObject : Json → Bool
  | .object _ => true
  | _ => false

def isString : Json → Bool
  | .string _ => true
  | _ => false

def isNumberUnsigned : Json → Bool
  | .unsigned _ => true
  | _ => false

def isNumberInteger : Json → Bool
  | .integer _ => true
  | .unsigned _ => true
  | _ => false

def typeName : Json → String
  | .null => "null"
  | .object _ => "object"
  | .array _ => "array"
  | .string _ => "string"
  | .boolean _ => "boolean"
  | _ => "number"

/-! ## Conversions -/

def typeError (expected : String) (json : Json) : String :=
  "[json.exception.type_error.302] type must be " ++ expected ++ ", but is " ++ json.typeName

def getArithmetic {α : Type} (unsigned : UInt64 → α) (integer : Int64 → α) (real : ℚ → α) :
    Json → Except String α
  | .unsigned value => .ok (unsigned value)
  | .integer value => .ok (integer value)
  | .real value => .ok (real value)
  | json => .error (json.typeError "number")

def getString : Json → Except String (List UInt8)
  | .string value => .ok value
  | json => .error (json.typeError "string")

def getJson : Json → Except String Json := .ok

def find (json : Json) (key : List UInt8) : Option Json :=
  match json with
  | .object members => members.lookup key
  | _ => none

def set (json : Json) (key : List UInt8) (field : Json) : Json :=
  match json with
  | .object members => .object ((key, field) :: members.filter (·.1 ≠ key))
  | json => json

def isEmpty : Json → Bool
  | .null => true
  | .array items => items.isEmpty
  | .object members => members.isEmpty
  | _ => false

def absentOr (json : Json) (key : List UInt8) (test : Json → Bool) : Bool := (json.find key).all test

def valueError (json : Json) : String :=
  "[json.exception.type_error.306] cannot use value() with " ++ json.typeName

def value {α : Type} (json : Json) (key : List UInt8) (get : Json → Except String α) (default : α) :
    Except String α :=
  match json with
  | .object members =>
    match members.lookup key with
    | some field => get field
    | none => .ok default
  | json => .error json.valueError

/-! ## Texts -/

def IsUtf8 (text : List UInt8) : Prop := ∃ chars : List Char, text = chars.flatMap String.utf8EncodeChar

theorem isUtf8_nil : IsUtf8 [] := ⟨[], rfl⟩

theorem IsUtf8.append {a b : List UInt8} (ha : IsUtf8 a) (hb : IsUtf8 b) : IsUtf8 (a ++ b) := by
  obtain ⟨chars, rfl⟩ := ha
  obtain ⟨chars', rfl⟩ := hb
  exact ⟨chars ++ chars', (List.flatMap_append ..).symm⟩

theorem utf8EncodeChar_ofNat {b : UInt8} (hb : b < 128) :
    String.utf8EncodeChar (Char.ofNat b.toNat) = [b] := by
  have hlt : b.toNat < 128 := UInt8.lt_iff_toNat_lt.1 hb
  have hval : (Char.ofNat b.toNat).val.toNat = b.toNat := by
    rw [Char.ofNat, dif_pos (show b.toNat.isValidChar from .inl (by omega))]
    rfl
  have hsize : (Char.ofNat b.toNat).utf8Size = 1 := by
    rw [Char.utf8Size_eq_one_iff, UInt32.le_iff_toNat_le, hval]
    exact Nat.le_of_lt_succ hlt
  rw [String.utf8EncodeChar_eq_singleton hsize]
  congr 1
  apply UInt8.toNat_inj.1
  rw [UInt32.toNat_toUInt8, hval]
  omega

theorem isUtf8_of_lt {text : List UInt8} (h : ∀ b ∈ text, b < 128) : IsUtf8 text := by
  refine ⟨text.map fun b => Char.ofNat b.toNat, ?_⟩
  induction text with
  | nil => rfl
  | cons b text ih =>
    rw [List.forall_mem_cons] at h
    rw [List.map_cons, List.flatMap_cons, utf8EncodeChar_ofNat h.1, ← ih h.2]
    rfl

inductive Texts : Json → Prop
  | null : Texts .null
  | boolean (value : Bool) : Texts (.boolean value)
  | integer (value : Int64) : Texts (.integer value)
  | unsigned (value : UInt64) : Texts (.unsigned value)
  | real (value : ℚ) : Texts (.real value)
  | string {text : List UInt8} (h : IsUtf8 text) : Texts (.string text)
  | array {items : List Json} (h : ∀ item ∈ items, Texts item) : Texts (.array items)
  | object {members : List (List UInt8 × Json)} (hkeys : ∀ member ∈ members, IsUtf8 member.1)
      (h : ∀ member ∈ members, Texts member.2) : Texts (.object members)

theorem texts_array_iff {items : List Json} :
    (Json.array items).Texts ↔ ∀ item ∈ items, item.Texts :=
  ⟨fun h => by cases h with | array h => exact h, .array⟩

theorem texts_object_iff {members : List (List UInt8 × Json)} :
    (Json.object members).Texts ↔ ∀ member ∈ members, IsUtf8 member.1 ∧ member.2.Texts := by
  constructor
  · intro h
    cases h with
    | object hkeys h => exact fun member hmem => ⟨hkeys member hmem, h member hmem⟩
  · exact fun h => .object (fun member hmem => (h member hmem).1) fun member hmem => (h member hmem).2

theorem Texts.set {json field : Json} {key : List UInt8} (h : json.Texts) (hkey : IsUtf8 key)
    (hfield : field.Texts) : (json.set key field).Texts := by
  cases json with
  | object members =>
    rw [texts_object_iff] at h
    rw [Json.set, texts_object_iff, List.forall_mem_cons]
    exact ⟨⟨hkey, hfield⟩, fun member hmem => h member (List.mem_filter.1 hmem).1⟩
  | _ => exact h

theorem Texts.find {json field : Json} {key : List UInt8} (h : json.Texts)
    (hfind : json.find key = some field) : field.Texts := by
  cases h with
  | object _ hmembers =>
    obtain ⟨before, behind, rfl, -⟩ := List.lookup_eq_some_iff.1 hfind
    exact hmembers (key, field) (by simp)
  | _ => cases hfind

/-- The exceptions of `parse`, with their message: the text is no value, or a number in it is too
large. -/
inductive ParseException
  | parseError (what : List UInt8)
  | outOfRange (what : List UInt8)

structure Library where
  parse : List UInt8 → Except ParseException Json
  dump : Json → Except (List UInt8) (List UInt8)
  truncate : ℚ → ℤ

namespace Library

variable (lib : Library)

def getInt64 : Json → Except String Int64 :=
  getArithmetic UInt64.toInt64 id fun value => Int64.ofInt (lib.truncate value)

/-- What is read has texts as strings, this is what can be written, what is written is a text, and so is
the message of a failure to write. -/
structure Strict : Prop where
  reads : ∀ body json, lib.parse body = .ok json → json.Texts
  writes : ∀ json : Json, (∃ body, lib.dump json = .ok body) ↔ json.Texts
  written : ∀ json body, lib.dump json = .ok body → IsUtf8 body
  message : ∀ json what, lib.dump json = .error what → IsUtf8 what

end Library

/-! ## Members -/

section Members

variable {lib : Library} {json : Json} {key : List UInt8}

theorem isString_iff : json.isString = true ↔ ∃ text, json = .string text := by
  cases json <;> simp [isString]

theorem isObject_iff : json.isObject = true ↔ ∃ members, json = .object members := by
  cases json <;> simp [isObject]

theorem absentOr_iff {test : Json → Bool} :
    json.absentOr key test = true ↔ ∀ field, json.find key = some field → test field = true := by
  rw [absentOr, Option.all_eq_true]

end Members

end Json
