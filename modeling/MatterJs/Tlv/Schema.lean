import MatterJs.Tlv.Any

/-!
# TLV schemas

The schemas of the TLV library as data, and the numeric and string schemas with
their checks. Values are those the schemas of the library take and return.
-/
namespace MatterJs.Tlv

open Ieee754 (Double IsNaN roundInteger)

inductive Value
  | undefined
  | null
  | boolean (b : Bool)
  | int (n : Int)
  | float (x : Double)
  | string (s : List UInt16)
  | bytes (b : List UInt8)
  | array (elements : List Value)
  | object (properties : List (String × Value))
  | stream (s : TlvStream)

/-- The value in an element of a stream. -/
def Value.primitive : Value → Option TlvValue
  | .null => some .null
  | .boolean b => some (.boolean b)
  | .int n => some (.int n)
  | .float x => some (.float x)
  | .string s => some (.string s)
  | .bytes b => some (.bytes b)
  | .undefined | .array _ | .object _ | .stream _ => none

def Value.ofPrimitive : Option TlvValue → Value
  | none => .undefined
  | some .null => .null
  | some (.boolean b) => .boolean b
  | some (.int n) => .int n
  | some (.float x) => .float x
  | some (.string s) => .string s
  | some (.bytes b) => .bytes b

def Value.typeof : Value → String
  | .undefined => "undefined"
  | .boolean _ => "boolean"
  | .int _ | .float _ => "number"
  | .string _ => "string"
  | .null | .bytes _ | .array _ | .object _ | .stream _ => "object"

variable (properties : List (String × Value))

/-- A property of an object, undefined where there is none. -/
def getProperty (name : String) : Value :=
  (properties.lookup name).getD .undefined

def setProperty (name : String) (value : Value) :
    List (String × Value) :=
  if (properties.lookup name).isSome then
    properties.map (fun p => if p.1 = name then (name, value) else p)
  else properties ++ [(name, value)]

inductive IntegerType
  | unsignedInt
  | signedInt
  deriving DecidableEq

def IntegerType.type : IntegerType → Nat
  | .unsignedInt => 0x04
  | .signedInt => 0x00

/-- `TlvNumericSchema` of an integer type. -/
structure NumericSchema where
  type : IntegerType
  baseTypeMin : Int
  baseTypeMax : Int
  minBound : Option Int
  maxBound : Option Int
  /-- A `TlvNumberSchema`, which returns numbers only. -/
  isNumber : Bool

namespace NumericSchema

variable (n : NumericSchema)

def min : Int := n.minBound.getD n.baseTypeMin

def max : Int := n.maxBound.getD n.baseTypeMax

/-- The constructor keeps a bound only where it narrows the base type. -/
def make (type : IntegerType) (isNumber : Bool) (baseTypeMin baseTypeMax : Int)
    (min max : Option Int) : NumericSchema where
  type := type
  baseTypeMin := baseTypeMin
  baseTypeMax := baseTypeMax
  minBound := min.filter (fun min => baseTypeMin < min)
  maxBound := max.filter (fun max => max < baseTypeMax)
  isNumber := isNumber

/-- Restrict value range. -/
def bound (min max : Option Int) : NumericSchema :=
  make n.type n.isNumber n.baseTypeMin n.baseTypeMax
    (some ((min.map (fun min => if n.min < min then min else n.min)).getD n.min))
    (some ((max.map (fun max => if max < n.max then max else n.max)).getD n.max))

def lengthProvider (value : Int) : TlvLength :=
  match n.type with
  | .unsignedInt => TlvCodec.getUIntTlvLength value
  | .signedInt => TlvCodec.getIntTlvLength value

/-- `lengthProvider` of any value. One that is no number is in no order with the bounds of the
lengths, and a fraction is compared like the next integer away from zero. -/
def lengthOf : Value → TlvLength
  | .int v => n.lengthProvider v
  | .float x =>
    if IsNaN x.bits then .eightBytes
    else n.lengthProvider (if 0 < x.scaled then x.ceil else x.floor)
  | _ => .eightBytes

def typeLength (length : TlvLength) : TlvTypeLength :=
  match n.type with
  | .unsignedInt => .unsignedInt length
  | .signedInt => .signedInt length

/-- The bounds of a value. A value that is no number is in no order with them. -/
def validateBoundaries (value : Value) : Except TlvError Unit :=
  let min := n.min
  let max := n.max
  match value with
  | .int v =>
    if v < n.min then
      .error (.validation .outOfBounds s!"Invalid value: {v} is below the minimum, {min}." none)
    else if n.max < v then
      .error (.validation .outOfBounds s!"Invalid value: {v} is above the maximum, {max}." none)
    else .ok ()
  | .float x =>
    if IsNaN x.bits then .ok ()
    else if x.floor < n.min then
      .error (.validation .outOfBounds s!"Invalid value: it is below the minimum, {min}." none)
    else if n.max < x.ceil then
      .error (.validation .outOfBounds s!"Invalid value: it is above the maximum, {max}." none)
    else .ok ()
  | _ => .ok ()

def validate (value : Value) : Except TlvError Unit :=
  match value with
  | .int _ | .float _ => n.validateBoundaries value
  | _ =>
    let type := value.typeof
    .error (.validation .datatypeMismatch s!"Expected number, got {type}." none)

/-- Whether an element of this type is read, and whether its bounds are checked then. -/
def checkType (relax : Bool) (typeLength : TlvTypeLength) :
    Except TlvError Bool :=
  let error : Except TlvError Bool :=
    let type := typeLength.type
    let expected := n.type.type
    .error (.unexpectedData s!"Unexpected type {type}, was expecting {expected}.")
  match n.type, typeLength with
  | .unsignedInt, .unsignedInt _ => .ok false
  | .signedInt, .signedInt _ => .ok false
  | .unsignedInt, .signedInt _ => if relax then .ok true else error
  | .signedInt, .unsignedInt _ => if relax then .ok true else error
  | _, _ => error

/-- What is made of the value that was read. -/
def finish (relaxed : Bool) (value : Option TlvValue) :
    Except TlvError Value := do
  let value := Value.ofPrimitive value
  if relaxed then n.validateBoundaries value
  match value with
  | .int v => return .int (if n.isNumber then roundInteger v else v)
  | value => return value

end NumericSchema

def tlvInt8 : NumericSchema := .make .signedInt true (-128) 127 none none
def tlvInt16 : NumericSchema := .make .signedInt true (-32768) 32767 none none
def tlvInt32 : NumericSchema := .make .signedInt true (-2147483648) 2147483647 none none
def tlvInt64 : NumericSchema :=
  .make .signedInt false (-9223372036854775808) 9223372036854775807 none none
def tlvUInt8 : NumericSchema := .make .unsignedInt true 0 0xff none none
def tlvUInt16 : NumericSchema := .make .unsignedInt true 0 0xffff none none
def tlvUInt24 : NumericSchema := .make .unsignedInt true 0 0xffffff none none
def tlvUInt32 : NumericSchema := .make .unsignedInt true 0 0xffffffff none none
def tlvUInt64 : NumericSchema := .make .unsignedInt false 0 18446744073709551615 none none

/-- `TlvNumberSchema` of a floating point type. -/
structure FloatSchema where
  length : FloatLength
  min : Double
  max : Double

inductive StringType
  | byteString
  | utf8String
  deriving DecidableEq

structure StringSchema where
  type : StringType
  minLength : Nat
  maxLength : Nat

/-- `TlvString` and `TlvByteString`, bounded. -/
def tlvString (minLength : Nat := 0) (maxLength : Nat := 65536) : StringSchema :=
  ⟨.utf8String, minLength, maxLength⟩

def tlvByteString (minLength : Nat := 0) (maxLength : Nat := 65536) : StringSchema :=
  ⟨.byteString, minLength, maxLength⟩

namespace StringSchema

def informationSeparator1 : UInt16 := 0x1f

def typeLength (s : StringSchema) (length : TlvLength) : TlvTypeLength :=
  match s.type with
  | .byteString => .byteString length
  | .utf8String => .utf8String length

/-- The length a value states of itself: code units of a string, bytes of a byte string. -/
def statedLength : Value → Option Nat
  | .string s => some s.length
  | .bytes b => some b.length
  | _ => none

def validate (s : StringSchema) (value : Value) : Except TlvError Unit := do
  let minLength := s.minLength
  let maxLength := s.maxLength
  let type := value.typeof
  let length ← match s.type, value with
    | .utf8String, .string text =>
      if informationSeparator1 ∈ text then
        throw (.validation .datatypeMismatch
          "Character string must not contain Information Separator 1 (0x1F)." none)
      else pure text.length
    | .byteString, .bytes b => pure b.length
    | .utf8String, _ =>
      throw (.validation .datatypeMismatch s!"Expected string, got {type}." none)
    | .byteString, _ =>
      throw (.validation .datatypeMismatch s!"Expected bytes, got {type}." none)
  if maxLength < length then
    throw (.validation .outOfBounds s!"String is too long: {length}, max {maxLength}." none)
  if length < minLength then
    throw (.validation .outOfBounds s!"String is too short: {length}, min {minLength}." none)

/-- What is made of the value that was read: text ends at the first separator. -/
def finish (s : StringSchema) (value : Option TlvValue) : Except TlvError Value :=
  match s.type, value with
  | .utf8String, some (.string text) =>
    if informationSeparator1 ∈ text then
      let length := text.length
      let maxLength := s.maxLength
      if maxLength < length then
        .error (.validation .outOfBounds s!"String is too long: {length}, max {maxLength}." none)
      else .ok (.string (text.takeWhile (fun unit => unit ≠ informationSeparator1)))
    else .ok (.string text)
  | _, value => .ok (.ofPrimitive value)

end StringSchema

/-- A field of an object schema. -/
structure Field (S : Type) where
  name : String
  id : Nat
  schema : S
  optional : Bool
  repeated : Bool
  minLength : Option Nat
  maxLength : Option Nat
  fallback : Option Value

/-- The settings of an `ObjectSchema`. -/
structure ObjectSettings where
  isList : Bool
  allowProtocolSpecificTags : Bool
  preserveDataOrdering : Bool

inductive Schema
  | boolean
  | numeric (schema : NumericSchema)
  | float (schema : FloatSchema)
  | string (schema : StringSchema)
  | nullable (schema : Schema)
  | array (elementSchema : Schema) (minLength maxLength : Nat)
  | object (settings : ObjectSettings) (fieldDefinitions : List (Field Schema))
  | any
  | void
  | noArguments
  /-- The conversions of a `TlvWrapper` may throw. -/
  | wrapper (underlyingSchema : Schema) (wrap unwrap : Value → Except TlvError Value)

/-- `TlvNullable` reserves the value of an integer type that stands for null. -/
def tlvNullable : Schema → Schema
  | .numeric n =>
    if n.baseTypeMin = 0 ∧ n.max = n.baseTypeMax then
      .nullable (.numeric (n.bound (some n.min) (some (n.baseTypeMax - 1))))
    else if n.baseTypeMin < 0 ∧ n.min = n.baseTypeMin then
      .nullable (.numeric (n.bound (some (n.baseTypeMin + 1)) (some n.max)))
    else .nullable (.numeric n)
  | schema => .nullable schema

variable (fields : List (Field Schema))

def tlvObject : Schema := .object ⟨false, false, false⟩ fields

def tlvTaggedList (allowProtocolSpecificTags : Bool := false) :
    Schema := .object ⟨true, allowProtocolSpecificTags, false⟩ fields

def tlvTaggedListPreservingOrder (allowProtocolSpecificTags : Bool := false) : Schema :=
  .object ⟨true, allowProtocolSpecificTags, true⟩ fields

variable (name : String) (id : Nat) (schema : Schema)

def tlvOptionalField : Field Schema :=
  ⟨name, id, schema, true, false, none, none, none⟩

def tlvRepeatedField (minLength maxLength : Option Nat) : Field Schema :=
  ⟨name, id, schema, false, true, minLength, maxLength, none⟩

def tlvOptionalRepeatedField (maxLength : Option Nat) : Field Schema :=
  ⟨name, id, schema, true, true, some 0, maxLength, none⟩

end MatterJs.Tlv
