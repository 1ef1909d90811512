import Mathlib.Data.List.Sort
import MatterJs.Tlv.SchemaCodec

/-!
# Decoding the value of an attribute

The entries of a report that belong to one attribute are decoded to its value: by the
schema of the attribute, or without one. A list comes as one entry with an array and
entries that change it.
-/
namespace MatterJs.Tlv.AnySchema

mutual

/-- `decodeGenericElement` of the element that was read last. -/
def decodeGenericElement : Nat → ArrayReader → Option TlvTag × TlvTypeLength → Bool →
    Except TlvError (Value × ArrayReader)
  | 0, _, _, _ => .error .outOfFuel
  | fuel + 1, reader, (tag, typeLength), allowTag =>
    match typeLength with
    | .null | .boolean _ | .unsignedInt _ | .signedInt _ | .float _ | .utf8String _
    | .byteString _ =>
      if tag.isSome ∧ allowTag = false then
        .error (.unexpectedData "Tag detected for a native type")
      else do
        let (value, reader) ← tlvArrayReader.readPrimitive reader typeLength
        return (.ofPrimitive value, reader)
    | .array => decodeGenericArrayOrList fuel reader false []
    | .list => decodeGenericArrayOrList fuel reader true []
    | .struct => decodeGenericStructure fuel reader []
    | .endOfContainer | .reserved _ =>
      let type := typeLength.type
      .error (.unexpectedData s!"Unknown type: {type}")

def decodeGenericArrayOrList : Nat → ArrayReader → Bool → List Value →
    Except TlvError (Value × ArrayReader)
  | 0, _, _, _ => .error .outOfFuel
  | fuel + 1, reader, allowTag, result => do
    let (element, reader) ← tlvArrayReader.readTagType reader
    if element.2 = .endOfContainer then return (.array result, reader)
    else if element.1.isSome ∧ allowTag = false then .error (.unexpectedData "Tag detected")
    else do
      let (value, reader) ← decodeGenericElement fuel reader element allowTag
      decodeGenericArrayOrList fuel reader allowTag (result ++ [value])

def decodeGenericStructure : Nat → ArrayReader → List (String × Value) →
    Except TlvError (Value × ArrayReader)
  | 0, _, _ => .error .outOfFuel
  | fuel + 1, reader, result => do
    let (element, reader) ← tlvArrayReader.readTagType reader
    if element.2 = .endOfContainer then return (.object result, reader)
    else match element.1.bind TlvTag.id with
      | none => .error (.unexpectedData "Tag missing for a structure")
      | some id => do
        let (value, reader) ← decodeGenericElement fuel reader element true
        decodeGenericStructure fuel reader (setProperty result (toString id) value)

end

def decodeAnyTlvStream (encoded : TlvStream) : Except TlvError Value :=
  if encoded.isEmpty then .ok .undefined
  else do
    let (element, reader) ← tlvArrayReader.readTagType (.of encoded)
    let (result, reader) ← decodeGenericElement (2 * encoded.length + 2) reader element false
    if reader.rest.isEmpty then return result
    else .error (.unexpectedData "Unexpected data left after parsing all data")

end MatterJs.Tlv.AnySchema

namespace MatterJs.Tlv

variable (options : TlvDecodingOptions)

/-- One change of a list: the whole array where the index is undefined, an element at the end
where it is null, and the element at an index else. -/
structure ArrayChunk where
  listIndex : Option (Option Nat)
  element : TlvStream

/-- An assignment behind the end leaves the elements between undefined. -/
def assignIndex (elements : List Value) (index : Nat) (value : Value) : List Value :=
  (elements ++ List.replicate (index + 1 - elements.length) Value.undefined).set index value

variable (elementSchema : Schema) (minLength maxLength : Nat)

/-- One pass of the loop of `decodeFromChunkedArray`. -/
def applyChunk (currentValue : List Value) (chunk : ArrayChunk) : Except TlvError (List Value) :=
  match chunk.listIndex with
  | none => do
    match ← (Schema.array elementSchema minLength maxLength).decodeTlvWith options
      chunk.element with
    | .array elements => return elements
    | _ => .error .typeError
  | some none => do
    let decodedElement ← elementSchema.decodeTlvWith options chunk.element
    return currentValue ++ [decodedElement]
  | some (some index) =>
    match chunk.element with
    | [] => .error .typeError
    | first :: _ =>
      if first.typeLength = .null then .ok (currentValue.eraseIdx index)
      else do
        let decodedElement ← elementSchema.decodeTlvWith options chunk.element
        return assignIndex currentValue index decodedElement

def decodeFromChunkedArray (chunks : List ArrayChunk)
    (currentValue : Option (List Value) := none) : Except TlvError (List Value) :=
  match currentValue, chunks with
  | some currentValue, chunks =>
    chunks.foldlM (applyChunk options elementSchema minLength maxLength) currentValue
  | none, [] => .error .typeError
  | none, first :: _ =>
    match first.listIndex with
    | some index =>
      let received := (index.map toString).getD "null"
      .error (.unexpectedData ("When no current value is supplied the first chunked element " ++
        s!"needs to have a list index of undefined, but received {received}."))
    | none => chunks.foldlM (applyChunk options elementSchema minLength maxLength) []

end MatterJs.Tlv

namespace MatterJs.Interaction

open MatterJs.Tlv

structure AttributePath where
  enableTagCompression : Option Bool := none
  nodeId : Option Nat := none
  endpointId : Option Nat := none
  clusterId : Option Nat := none
  attributeId : Option Nat := none
  /-- Undefined, null or an index. -/
  listIndex : Option (Option Nat) := none
  wildcardPathFlags : Option Nat := none
  wildcardFilterConfigurationVersion : Option Nat := none

/-- `TlvStatus`. -/
structure StatusValue where
  status : Nat
  clusterStatus : Option Nat := none

structure AttributeStatus where
  path : AttributePath
  status : StatusValue

/-- `TlvAttributeData`. -/
structure AttributeData where
  dataVersion : Option Nat := none
  path : AttributePath
  data : TlvStream

def AttributeData.chunk (d : AttributeData) : ArrayChunk := ⟨d.path.listIndex, d.data⟩

/-- The elements of an unknown list, put together and then decoded. -/
def decodeUnknownChunks (chunks : List ArrayChunk) : Except TlvError Value := do
  let elements ← decodeFromChunkedArray {} .any 0 65535 chunks
  let elements ← elements.mapM (fun element => match element with
    | .stream element => AnySchema.decodeAnyTlvStream element
    -- a hole of the array is kept
    | .undefined => .ok .undefined
    | _ => .error .typeError)
  return .array elements

/-- Decodes the data for one unknown attribute, with its list put together. -/
def decodeUnknownAttributeValue (values : List AttributeData) : Except TlvError Value :=
  match values with
  | [] => .ok .undefined
  | [⟨_, { listIndex := none, .. }, data⟩] => do
    match ← Schema.any.decodeTlvWith {} data with
    | .stream tlvEncoded => AnySchema.decodeAnyTlvStream tlvEncoded
    | _ => .error .typeError
  | values => decodeUnknownChunks (values.map AttributeData.chunk)

/-- Decodes the data for one attribute by its schema, with its list put together. -/
def decodeAttributeValueWithSchema (options : TlvDecodingOptions) (schema : Schema)
    (values : List AttributeData) : Except TlvError Value :=
  match values with
  | [] => .ok .undefined
  | first :: rest =>
    match schema with
    | .any => decodeUnknownAttributeValue values
    | .array elementSchema minLength maxLength => do
      let elements ← decodeFromChunkedArray options elementSchema minLength maxLength
        (values.map AttributeData.chunk)
      return .array elements
    | schema =>
      if rest.isEmpty ∧ first.path.listIndex = none then schema.decodeTlvWith options first.data
      else if values.any (·.path.listIndex.isSome) then
        .error (.unexpectedData "Attribute is not a list but we got actions with list entries")
      else
        -- the highest version first, entries of one version in their order
        match values.insertionSort (fun a b => b.dataVersion.getD 0 ≤ a.dataVersion.getD 0) with
        | [] => .error .typeError
        | best :: _ => schema.decodeTlvWith options best.data

end MatterJs.Interaction
