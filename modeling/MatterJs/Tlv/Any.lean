import MatterJs.Tlv.Codec

/-!
# Readers, writers and `AnySchema`

The two kinds of TLV reader and writer, over bytes and over element streams, and
the schema that reads and writes elements as they are. Its loops are bounded by
what the reader still holds.
-/
namespace MatterJs.Tlv

open TlvCodec

structure TlvWriter (ω : Type) where
  writeTag : ω → TlvTypeLength → Option TlvTag → Except TlvError ω
  writePrimitive : ω → TlvTypeLength → Option TlvValue → Except TlvError ω

def tlvByteArrayWriter : TlvWriter DataWriter where
  writeTag := writeTag
  writePrimitive := writePrimitive

def setLastValue (value : Option TlvValue) : TlvStream → Except TlvError TlvStream
  | [] => .error .typeError
  | [e] => .ok [{ e with value }]
  | e :: e' :: es => do
    let es ← setLastValue value (e' :: es)
    return e :: es

def tlvArrayWriter : TlvWriter TlvStream where
  writeTag tlvArray typeLength tag := .ok (tlvArray ++ [⟨tag, typeLength, none⟩])
  writePrimitive tlvArray _ value := setLastValue value tlvArray

structure TlvReader (ρ : Type) where
  readTagType : ρ → Except TlvError ((Option TlvTag × TlvTypeLength) × ρ)
  readPrimitive : ρ → TlvTypeLength → Except TlvError (Option TlvValue × ρ)
  /-- A bound on the elements that can still be read. -/
  remaining : ρ → Nat
  /-- The decoding option of the same name, off by default. -/
  relaxNumberTypeChecks : Bool := false

def tlvByteArrayReader : TlvReader DataReader where
  readTagType := readTagType
  readPrimitive r typeLength := do
    let (value, r) ← readPrimitive r typeLength
    return (some value, r)
  remaining r := r.remaining.length

/-- The element at the index of an array reader, and those behind it. -/
structure ArrayReader where
  current : Option TlvElement
  rest : TlvStream

def ArrayReader.of (tlvElements : TlvStream) : ArrayReader := ⟨none, tlvElements⟩

def tlvArrayReader : TlvReader ArrayReader where
  readTagType r :=
    match r.rest with
    | [] => .error .typeError
    | e :: rest => .ok ((e.tag, e.typeLength), ⟨some e, rest⟩)
  readPrimitive r _ :=
    match r.current with
    | none => .error .typeError
    | some e => .ok (e.value, r)
  remaining r := r.rest.length

namespace AnySchema

/-- Writes one element of a stream. -/
def encodeElement {ω : Type} (W : TlvWriter ω) (w : ω) (tag : Option TlvTag) (e : TlvElement) :
    Except TlvError ω :=
  match e.typeLength with
  | .null | .boolean _ | .array | .struct | .list | .endOfContainer =>
    W.writeTag w e.typeLength tag
  | .unsignedInt _ | .signedInt _ | .float _ | .utf8String _ | .byteString _ => do
    let w ← W.writeTag w e.typeLength tag
    W.writePrimitive w e.typeLength e.value
  | .reserved _ => .ok w

/-- The assigned tag replaces that of the first element. -/
def encodeTlvInternal {ω : Type} (W : TlvWriter ω) (w : ω) (tlvStream : TlvStream)
    (tagAssigned : Option TlvTag) : Except TlvError ω :=
  match tlvStream with
  | [] => .ok w
  | e :: es => do
    let w ← encodeElement W w (tagAssigned <|> e.tag) e
    es.foldlM (fun w e => encodeElement W w e.tag e) w

mutual

def decodeTlvValueRec {ρ : Type} (R : TlvReader ρ) : Nat → ρ → TlvTypeLength → TlvStream →
    Option TlvTag → Except TlvError (TlvStream × ρ)
  | 0, _, _, _, _ => .error .outOfFuel
  | fuel + 1, r, typeLength, tlvStream, tag =>
    match typeLength with
    | .null => .ok (tlvStream ++ [⟨tag, typeLength, some .null⟩], r)
    | .boolean _ | .unsignedInt _ | .signedInt _ | .float _ | .utf8String _ | .byteString _ => do
      let (value, r) ← R.readPrimitive r typeLength
      return (tlvStream ++ [⟨tag, typeLength, value⟩], r)
    | .array | .struct | .list => decodeElements R fuel r (tlvStream ++ [⟨tag, typeLength, none⟩])
    | .endOfContainer => .ok (tlvStream ++ [⟨tag, typeLength, none⟩], r)
    | .reserved _ => .ok (tlvStream, r)

/-- The loop over the elements of a container. -/
def decodeElements {ρ : Type} (R : TlvReader ρ) : Nat → ρ → TlvStream →
    Except TlvError (TlvStream × ρ)
  | 0, _, _ => .error .outOfFuel
  | fuel + 1, r, tlvStream => do
    let ((elementTag, typeLengthElement), r) ← R.readTagType r
    let (tlvStream, r) ← decodeTlvValueRec R fuel r typeLengthElement tlvStream elementTag
    if typeLengthElement = .endOfContainer then return (tlvStream, r)
    else decodeElements R fuel r tlvStream

end

def decodeTlvInternalValue {ρ : Type} (R : TlvReader ρ) (r : ρ) (typeLength : TlvTypeLength) :
    Except TlvError (TlvStream × ρ) :=
  decodeTlvValueRec R (2 * R.remaining r + 2) r typeLength [] none

/-- `TlvAny.encode`. The check of the stream's shape is part of its type here. -/
def encode (tlvStream : TlvStream) : Except TlvError (List UInt8) := do
  let w ← encodeTlvInternal tlvByteArrayWriter .empty tlvStream none
  return w.bytes

def decode (encoded : List UInt8) : Except TlvError TlvStream := do
  let ((_, typeLength), r) ← readTagType (.of encoded)
  let (tlvStream, _) ← decodeTlvInternalValue tlvByteArrayReader r typeLength
  return tlvStream

end AnySchema

end MatterJs.Tlv
