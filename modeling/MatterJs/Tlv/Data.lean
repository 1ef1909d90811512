import MatterJs.Foundation.LittleEndian
import MatterJs.Foundation.TextCodec
import MatterJs.Tlv.Element

/-! The little-endian `DataReader` and `DataWriter` under the TLV codec. -/
namespace MatterJs.Tlv

open LittleEndian

open Ieee754 (Double roundInteger)

/-- A reader with the bytes behind its offset. -/
structure DataReader where
  offset : Nat
  remaining : List UInt8
  deriving DecidableEq

namespace DataReader

def of (buffer : List UInt8) : DataReader := ⟨0, buffer⟩

variable (r : DataReader)

/-- `getOffsetAndAdvance`, with the bytes it passes. -/
def advance (size : Nat) : Except TlvError (List UInt8 × DataReader) :=
  let offset := r.offset
  let byteLength := r.offset + r.remaining.length
  if r.remaining.length < size then
    .error (.dataRead
      s!"Read of {size} bytes at offset {offset} exceeds the {byteLength} byte buffer")
  else .ok (r.remaining.take size, ⟨r.offset + size, r.remaining.drop size⟩)

def readUInt (w : Nat) (r : DataReader) : Except TlvError (Nat × DataReader) := do
  let (bytes, r) ← r.advance w
  return (decode bytes, r)

def readUInt8 : DataReader → Except TlvError (Nat × DataReader) := readUInt 1
def readUInt16 : DataReader → Except TlvError (Nat × DataReader) := readUInt 2
def readUInt32 : DataReader → Except TlvError (Nat × DataReader) := readUInt 4
def readUInt64 : DataReader → Except TlvError (Nat × DataReader) := readUInt 8

def readInt (w : Nat) (r : DataReader) : Except TlvError (Int × DataReader) := do
  let (n, r) ← r.readUInt w
  return (signed w n, r)

def readInt8 : DataReader → Except TlvError (Int × DataReader) := readInt 1
def readInt16 : DataReader → Except TlvError (Int × DataReader) := readInt 2
def readInt32 : DataReader → Except TlvError (Int × DataReader) := readInt 4
def readInt64 : DataReader → Except TlvError (Int × DataReader) := readInt 8

def readFloat : Except TlvError (Double × DataReader) := do
  let (n, r) ← r.readUInt32
  return (Double.ofSingle n, r)

def readDouble : Except TlvError (Double × DataReader) := do
  let (n, r) ← r.readUInt64
  return (Double.ofBits n, r)

def readUtf8String (length : Nat) :
    Except TlvError (List UInt16 × DataReader) := do
  let (bytes, r) ← r.advance length
  return (TextCodec.decode bytes, r)

def readByteArray (length : Nat) :
    Except TlvError (List UInt8 × DataReader) := r.advance length

/-- A reader that is `n` bytes further on. -/
def past (n : Nat) (rest : List UInt8) : DataReader := ⟨r.offset + n, rest⟩

end DataReader

/-- The bytes a writer has taken so far. -/
structure DataWriter where
  bytes : List UInt8

namespace DataWriter

def empty : DataWriter := ⟨[]⟩

variable (w : DataWriter)

def writeByteArray (value : List UInt8) : DataWriter := ⟨w.bytes ++ value⟩

/-- An integer of up to four bytes, which the writer turns into a number first. -/
def writeNumber (size : Nat) (w : DataWriter) (value : Int) : DataWriter :=
  w.writeByteArray (encodeInt size (roundInteger value))

def writeBigInt (value : Int) : DataWriter :=
  w.writeByteArray (encodeInt 8 value)

def writeUInt8 : DataWriter → Int → DataWriter := writeNumber 1
def writeUInt16 : DataWriter → Int → DataWriter := writeNumber 2
def writeUInt32 : DataWriter → Int → DataWriter := writeNumber 4
def writeUInt64 : DataWriter → Int → DataWriter := writeBigInt
def writeInt8 : DataWriter → Int → DataWriter := writeNumber 1
def writeInt16 : DataWriter → Int → DataWriter := writeNumber 2
def writeInt32 : DataWriter → Int → DataWriter := writeNumber 4
def writeInt64 : DataWriter → Int → DataWriter := writeBigInt

def writeFloat (value : Double) : DataWriter :=
  w.writeByteArray (encode 4 value.toSingle)

def writeDouble (value : Double) : DataWriter :=
  w.writeByteArray (encode 8 value.bits)

end DataWriter

end MatterJs.Tlv
