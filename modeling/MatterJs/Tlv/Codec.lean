import MatterJs.Tlv.Data

/-! `TlvCodec`: control bytes, tags and primitive values, in both directions. -/
namespace MatterJs.Tlv

open Ieee754 (Double roundInteger)

inductive TagControl
  | anonymous
  | contextSpecific
  | commonProfile16
  | commonProfile32
  | implicitProfile16
  | implicitProfile32
  | fullyQualified48
  | fullyQualified64

def TagControl.code : TagControl → Nat
  | .anonymous => 0
  | .contextSpecific => 1
  | .commonProfile16 => 2
  | .commonProfile32 => 3
  | .implicitProfile16 => 4
  | .implicitProfile32 => 5
  | .fullyQualified48 => 6
  | .fullyQualified64 => 7

def TagControl.ofCode : Nat → TagControl
  | 0 => .anonymous
  | 1 => .contextSpecific
  | 2 => .commonProfile16
  | 3 => .commonProfile32
  | 4 => .implicitProfile16
  | 5 => .implicitProfile32
  | 6 => .fullyQualified48
  | _ => .fullyQualified64

def matterCommonProfile : Nat := 0

namespace TlvCodec

def getUIntTlvLength (value : Int) : TlvLength :=
  if value ≤ 0xff then .oneByte
  else if value ≤ 0xffff then .twoBytes
  else if value ≤ 0xffffffff then .fourBytes
  else .eightBytes

def getIntTlvLength (value : Int) : TlvLength :=
  if value > 0 then
    if value ≤ 127 then .oneByte
    else if value ≤ 32767 then .twoBytes
    else if value ≤ 2147483647 then .fourBytes
    else .eightBytes
  else
    if value ≥ -128 then .oneByte
    else if value ≥ -32768 then .twoBytes
    else if value ≥ -2147483648 then .fourBytes
    else .eightBytes

variable (r : DataReader) (tagControl : TagControl)

def readTag :
    Except TlvError (Option TlvTag × DataReader) :=
  match tagControl with
  | .anonymous => .ok (none, r)
  | .contextSpecific => do
    let (id, r) ← r.readUInt8
    return (some ⟨none, some id⟩, r)
  | .commonProfile16 => do
    let (id, r) ← r.readUInt16
    return (some ⟨some matterCommonProfile, some id⟩, r)
  | .commonProfile32 => do
    let (id, r) ← r.readUInt32
    return (some ⟨some matterCommonProfile, some id⟩, r)
  | .implicitProfile16 => .error (.notImplemented "Unsupported implicit profile 4")
  | .implicitProfile32 => .error (.notImplemented "Unsupported implicit profile 5")
  | .fullyQualified48 => do
    let (profile, r) ← r.readUInt32
    let (id, r) ← r.readUInt16
    return (some ⟨some profile, some id⟩, r)
  | .fullyQualified64 => .error (.notImplemented "Unexpected tagControl 7")

/-- The five bits of type and length. -/
def parseTypeLength (typeLength : Nat) : TlvTypeLength :=
  let length : TlvLength := match typeLength % 4 with
    | 0 => .oneByte
    | 1 => .twoBytes
    | 2 => .fourBytes
    | _ => .eightBytes
  match typeLength / 4 with
  | 0 => .signedInt length
  | 1 => .unsignedInt length
  | 2 => match length with
    | .oneByte => .boolean false
    | .twoBytes => .boolean true
    | .fourBytes => .float .fourBytes
    | .eightBytes => .float .eightBytes
  | 3 => .utf8String length
  | 4 => .byteString length
  | _ => match typeLength with
    | 0x14 => .null
    | 0x15 => .struct
    | 0x16 => .array
    | 0x17 => .list
    | 0x18 => .endOfContainer
    | code => .reserved (Fin.ofNat 7 (code - 0x19))

def readTagType :
    Except TlvError ((Option TlvTag × TlvTypeLength) × DataReader) := do
  let (control, r) ← r.readUInt8
  let (tag, r) ← readTag r (TagControl.ofCode (control / 32))
  return ((tag, parseTypeLength (control % 32)), r)

/-- The length in front of a string. -/
def readLength : TlvLength → Except TlvError (Nat × DataReader)
  | .oneByte => r.readUInt8
  | .twoBytes => r.readUInt16
  | .fourBytes => r.readUInt32
  | .eightBytes => do
    let (length, r) ← r.readUInt64
    return ((roundInteger length).toNat, r)

def readPrimitive (typeLength : TlvTypeLength) :
    Except TlvError (TlvValue × DataReader) :=
  match typeLength with
  | .signedInt length => do
    let (value, r) ← match length with
      | .oneByte => r.readInt8
      | .twoBytes => r.readInt16
      | .fourBytes => r.readInt32
      | .eightBytes => r.readInt64
    return (.int value, r)
  | .unsignedInt length => do
    let (value, r) ← match length with
      | .oneByte => r.readUInt8
      | .twoBytes => r.readUInt16
      | .fourBytes => r.readUInt32
      | .eightBytes => r.readUInt64
    return (.int value, r)
  | .float .fourBytes => do
    let (value, r) ← r.readFloat
    return (.float value, r)
  | .float .eightBytes => do
    let (value, r) ← r.readDouble
    return (.float value, r)
  | .utf8String length => do
    let (length, r) ← readLength r length
    let (value, r) ← r.readUtf8String length
    return (.string value, r)
  | .byteString length => do
    let (length, r) ← readLength r length
    let (value, r) ← r.readByteArray length
    return (.bytes value, r)
  | .boolean value => .ok (.boolean value, r)
  | .null => .ok (.null, r)
  | typeLength =>
    let type := typeLength.type
    .error (.unexpectedData s!"Unexpected TLV type {type}")

/-- The five bits that `writeTag` puts into the control byte. -/
def typeLengthCode : TlvTypeLength → Nat
  | .signedInt length => 0x00 ||| length.code
  | .unsignedInt length => 0x04 ||| length.code
  | .boolean value => 0x08 + (if value then 1 else 0)
  | .float .fourBytes => 0x0a ||| 2
  | .float .eightBytes => 0x0a ||| 3
  | .utf8String length => 0x0c ||| length.code
  | .byteString length => 0x10 ||| length.code
  | typeLength => typeLength.type

def controlByte (typeLength : TlvTypeLength) : Int :=
  (tagControl.code * 32 + typeLengthCode typeLength : Nat)

/-- Whether an id fits into 16 bits, as the writer finds out. -/
def fits16 (id : Nat) : Prop := id / 2 ^ 16 % 2 ^ 16 = 0

instance (id : Nat) : Decidable (fits16 id) := inferInstanceAs (Decidable (_ = _))

variable (w : DataWriter) (typeLength : TlvTypeLength)

def writeTag (tag : Option TlvTag) :
    Except TlvError DataWriter :=
  match (tag.bind TlvTag.profile), (tag.bind TlvTag.id) with
  | none, none => .ok (w.writeUInt8 (controlByte .anonymous typeLength))
  | none, some id =>
    .ok ((w.writeUInt8 (controlByte .contextSpecific typeLength)).writeUInt8 id)
  | some profile, none =>
    if profile = matterCommonProfile then
      .error (.unexpectedData "Invalid TLV tag: id should be defined for a datatype profile.")
    else .error (.unexpectedData "Invalid TLV tag: id should be defined for a custom profile.")
  | some profile, some id =>
    if profile = matterCommonProfile then
      if fits16 id then
        .ok ((w.writeUInt8 (controlByte .commonProfile16 typeLength)).writeUInt16 id)
      else .ok ((w.writeUInt8 (controlByte .commonProfile32 typeLength)).writeUInt32 id)
    else if fits16 id then
      .ok (((w.writeUInt8 (controlByte .fullyQualified48 typeLength)).writeUInt32
        profile).writeUInt16 id)
    else
      .ok (((w.writeUInt8 (controlByte .fullyQualified64 typeLength)).writeUInt32
        profile).writeUInt32 id)

def writeUInt (length : TlvLength) (value : Int) : DataWriter :=
  match length with
  | .oneByte => w.writeInt8 value
  | .twoBytes => w.writeInt16 value
  | .fourBytes => w.writeInt32 value
  | .eightBytes => w.writeInt64 value

/-- The integer that is written for a number: a typed array truncates, and a number that is none
has no `BigInt`. -/
def integral : TlvTypeLength → Option TlvValue → Option TlvValue
  | .signedInt length, some (.float x) | .unsignedInt length, some (.float x) =>
    if length = .eightBytes then x.toInteger?.map .int else some (.int x.truncate)
  | _, value => value

def writePrimitive (value : Option TlvValue) :
    Except TlvError DataWriter :=
  match typeLength, integral typeLength value with
  | .signedInt length, some (.int n) => .ok (writeUInt w length n)
  | .unsignedInt length, some (.int n) =>
    match length with
    | .oneByte => .ok (w.writeUInt8 n)
    | .twoBytes => .ok (w.writeUInt16 n)
    | .fourBytes => .ok (w.writeUInt32 n)
    | .eightBytes => .ok (w.writeUInt64 n)
  | .float .fourBytes, some (.float x) => .ok (w.writeFloat x)
  | .float .eightBytes, some (.float x) => .ok (w.writeDouble x)
  | .utf8String length, some (.string s) =>
    let stringData := TextCodec.encode s
    .ok ((writeUInt w length stringData.length).writeByteArray stringData)
  | .byteString length, some (.bytes b) =>
    .ok ((writeUInt w length b.length).writeByteArray b)
  | .boolean _, _ => .ok w
  -- a value that does not belong to the type
  | .signedInt _, _ | .unsignedInt _, _ | .float _, _ | .utf8String _, _ | .byteString _, _ =>
    .error .typeError
  | typeLength, _ =>
    let type := typeLength.type
    .error (.unexpectedData s!"Unexpected TLV type {type}")

end TlvCodec

end MatterJs.Tlv
