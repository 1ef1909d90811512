import MatterJs.Foundation.Ieee754

/-! TLV elements: types with their lengths, tags, values, and the errors of the codec. -/
namespace MatterJs.Tlv

open Ieee754 (Double)

/-- Byte length of the encoded value or length. -/
inductive TlvLength
  | oneByte
  | twoBytes
  | fourBytes
  | eightBytes
  deriving DecidableEq

/-- The lengths a float may have. -/
inductive FloatLength
  | fourBytes
  | eightBytes
  deriving DecidableEq

/-- Type and length or value, when applicable. -/
inductive TlvTypeLength
  | signedInt (length : TlvLength)
  | unsignedInt (length : TlvLength)
  | boolean (value : Bool)
  | float (length : FloatLength)
  | utf8String (length : TlvLength)
  | byteString (length : TlvLength)
  | null
  | struct
  | array
  | list
  | endOfContainer
  /-- A type above 0x18, which the reader passes on as it is. -/
  | reserved (code : Fin 7)
  deriving DecidableEq

/-- The number of a length in the control byte. -/
def TlvLength.code : TlvLength → Nat
  | .oneByte => 0
  | .twoBytes => 1
  | .fourBytes => 2
  | .eightBytes => 3

/-- `getUIntByteLength`. -/
def TlvLength.bytes : TlvLength → Nat
  | .oneByte => 1
  | .twoBytes => 2
  | .fourBytes => 4
  | .eightBytes => 8

/-- The number of a type in `TlvType`. -/
def TlvTypeLength.type : TlvTypeLength → Nat
  | .signedInt _ => 0x00
  | .unsignedInt _ => 0x04
  | .boolean _ => 0x08
  | .float _ => 0x0a
  | .utf8String _ => 0x0c
  | .byteString _ => 0x10
  | .null => 0x14
  | .struct => 0x15
  | .array => 0x16
  | .list => 0x17
  | .endOfContainer => 0x18
  | .reserved code => 0x19 + code

structure TlvTag where
  profile : Option Nat
  id : Option Nat
  deriving DecidableEq

/-- The values of primitive elements. Numbers and bigints are integers by their magnitude,
strings are their code units. -/
inductive TlvValue
  | int (n : Int)
  | float (x : Double)
  | string (s : List UInt16)
  | bytes (b : List UInt8)
  | boolean (b : Bool)
  | null
  deriving DecidableEq

@[ext] structure TlvElement where
  tag : Option TlvTag
  typeLength : TlvTypeLength
  value : Option TlvValue
  deriving DecidableEq

abbrev TlvStream := List TlvElement

inductive ValidationKind
  | outOfBounds
  | datatypeMismatch
  | mandatoryFieldMissing
  deriving DecidableEq

inductive TlvError
  | unexpectedData (message : String)
  | dataRead (message : String)
  | notImplemented (message : String)
  | internal (message : String)
  /-- A failed operation of the language, such as the use of an undefined value. -/
  | typeError
  | validation (kind : ValidationKind) (message : String) (fieldName : Option String)
  /-- The bound on the recursion of the model, never reached by a decoder. -/
  | outOfFuel
  deriving DecidableEq

variable {ε α β : Type}

@[simp] theorem ok_bind (a : α) (f : α → Except ε β) : (Except.ok a >>= f) = f a := rfl

@[simp] theorem error_bind (e : ε) (f : α → Except ε β) :
    (Except.error e >>= f) = Except.error e := rfl

theorem ok_of_bind {x : Except ε α} {f : α → Except ε β} {b : β}
    (h : (x >>= f) = .ok b) : ∃ a, x = .ok a ∧ f a = .ok b := by
  cases x with
  | error e => cases h
  | ok a => exact ⟨a, rfl, h⟩

end MatterJs.Tlv
