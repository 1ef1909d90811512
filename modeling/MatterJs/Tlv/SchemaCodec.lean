import MatterJs.Tlv.Schema

/-!
# Encoding and decoding with a schema

`encodeTlvInternal`, `decodeTlvInternalValue` and `validate` of every schema,
over any writer and reader.
-/
namespace MatterJs.Tlv

structure TlvEncodingOptions where
  forWriteInteraction : Bool := false
  allowMissingFieldsForNonFabricFilteredRead : Bool := false

/-- The id of the fabric index in fabric-scoped structures. -/
def fabricIndexId : Nat := 0xfe

section Encode

variable {ω : Type} (W : TlvWriter ω)

/-- A tag with a value behind it. -/
def writeElement (w : ω) (typeLength : TlvTypeLength) (tag : Option TlvTag)
    (value : Option TlvValue) : Except TlvError ω := do
  let w ← W.writeTag w typeLength tag
  W.writePrimitive w typeLength value

/-- One field of an object with what writes its entry. -/
structure FieldEncoder (ω : Type) where
  name : String
  encode : Value → ω → Except TlvError ω

/-- `#encodeEntryToTlv`, over the encoder of the field's schema. -/
def encodeEntryToTlv (options : TlvEncodingOptions) (name : String) (id : Nat)
    (optional repeated : Bool) (encode : Value → ω → Except TlvError ω) (fieldValue : Value)
    (w : ω) : Except TlvError ω :=
  if options.forWriteInteraction ∧ options.allowMissingFieldsForNonFabricFilteredRead then
    .error (.internal ("Encode options cannot indicate a write interaction and a fabric " ++
      "filtered read interaction at the same time."))
  else if options.forWriteInteraction ∧ id = fabricIndexId then .ok w
  else match fieldValue with
    | .undefined =>
      if optional ∨ options.allowMissingFieldsForNonFabricFilteredRead then .ok w
      else .error (.validation .mandatoryFieldMissing s!"Missing mandatory field {name}"
        (some name))
    | fieldValue =>
      if repeated then
        match fieldValue with
        | .array elements => elements.foldlM (fun w element => encode element w) w
        | _ => .error (.validation .datatypeMismatch
            s!"Repeated field {name} should be an array." (some name))
      else encode fieldValue w

/-- The fields of an object in the order of their definitions. -/
def encodeStructure (fields : List (FieldEncoder ω)) (properties : List (String × Value))
    (w : ω) : Except TlvError ω :=
  fields.foldlM (fun w field => field.encode (getProperty properties field.name) w) w

/-- The fields of a tagged list, which may follow the order of the value's properties. -/
def encodeList (preserveDataOrdering : Bool) (fields : List (FieldEncoder ω))
    (properties : List (String × Value)) (w : ω) : Except TlvError ω :=
  match properties.find? (fun p => ¬ fields.any (·.name = p.1)) with
  | some (name, _) =>
    .error (.validation .datatypeMismatch
      s!"Unknown field \"{name}\" not defined in tagged list schema." (some name))
  | none =>
    if preserveDataOrdering then do
      let given := properties.filterMap (fun p => fields.find? (·.name = p.1))
      let others := fields.filter (fun field => (properties.lookup field.name).isNone)
      encodeStructure (given ++ others) properties w
    else encodeStructure fields properties w

mutual

def Schema.encodeTlvInternal (options : TlvEncodingOptions) : Schema → Value → Option TlvTag →
    ω → Except TlvError ω
  | .boolean, .boolean value, tag, w => W.writeTag w (.boolean value) tag
  | .boolean, _, _, _ => .error .typeError
  | .numeric n, value, tag, w =>
    writeElement W w (n.typeLength (n.lengthOf value)) tag value.primitive
  | .float f, value, tag, w => writeElement W w (.float f.length) tag value.primitive
  | .string s, value, tag, w =>
    match StringSchema.statedLength value with
    | some length =>
      writeElement W w (s.typeLength (TlvCodec.getUIntTlvLength length)) tag value.primitive
    | none => .error .typeError
  | .nullable _, .null, tag, w => W.writeTag w .null tag
  | .nullable schema, value, tag, w => schema.encodeTlvInternal options value tag w
  | .array elementSchema _ _, .array elements, tag, w => do
    let w ← W.writeTag w .array tag
    let w ← elements.foldlM
      (fun w element => elementSchema.encodeTlvInternal options element none w) w
    W.writeTag w .endOfContainer none
  | .array .., _, _, _ => .error .typeError
  | .object settings fieldDefinitions, .object properties, tag, w => do
    let fields := fieldEncoders options fieldDefinitions
    let w ← W.writeTag w (if settings.isList then .list else .struct) tag
    let w ← if settings.isList then
        encodeList settings.preserveDataOrdering fields properties w
      else encodeStructure fields properties w
    W.writeTag w .endOfContainer none
  | .object .., _, _, _ => .error .typeError
  | .any, .stream tlvStream, tag, w => AnySchema.encodeTlvInternal W w tlvStream tag
  | .any, _, _, _ => .error .typeError
  | .void, _, _, w => .ok w
  | .noArguments, .undefined, tag, w => do
    let w ← W.writeTag w .struct tag
    W.writeTag w .endOfContainer none
  | .noArguments, _, _, _ => .error (.unexpectedData "No value should be passed")
  | .wrapper underlyingSchema wrap _, value, tag, w => do
    let value ← wrap value
    underlyingSchema.encodeTlvInternal options value tag w

def fieldEncoders (options : TlvEncodingOptions) : List (Field Schema) → List (FieldEncoder ω)
  | [] => []
  | ⟨name, id, schema, optional, repeated, _, _, _⟩ :: fields =>
    ⟨name, encodeEntryToTlv options name id optional repeated
      (fun value w => schema.encodeTlvInternal options value (some ⟨none, some id⟩) w)⟩ ::
      fieldEncoders options fields

end

end Encode

section Decode

/-- One field of an object with what decodes its value. -/
structure FieldDecoder (δ : Type) where
  name : String
  id : Nat
  repeated : Bool
  decode : δ

/-- `fieldById`, where a later definition replaces an earlier one. -/
def fieldById {δ : Type} : List (FieldDecoder δ) → Nat → Option (FieldDecoder δ)
  | [], _ => none
  | field :: fields, id =>
    match fieldById fields id with
    | some later => some later
    | none => if field.id = id then some field else none

/-- Whether the tag of an element of an object is accepted, and its id. -/
def checkObjectTag (allowProtocolSpecificTags : Bool) (tag : Option TlvTag) :
    Except TlvError Nat :=
  if (tag.bind TlvTag.profile).isSome ∧ ¬ allowProtocolSpecificTags then
    .error (.unexpectedData "Structure element tags should be context-specific.")
  else match tag.bind TlvTag.id with
    | none => .error (.unexpectedData "Structure element tags should have an id.")
    | some id => .ok id

/-- The decoded value becomes a property, or the next element of a repeated one. -/
def addDecoded (result : List (String × Value)) (name : String) (repeated : Bool)
    (decoded : Value) : List (String × Value) :=
  if repeated then
    match getProperty result name with
    | .array elements => setProperty result name (.array (elements ++ [decoded]))
    | _ => setProperty result name (.array [decoded])
  else setProperty result name decoded

/-- Mandatory fields that are missing take their fallback, where they have one. -/
def applyFallbacks (fields : List (Field Schema)) (result : List (String × Value)) :
    List (String × Value) :=
  fields.foldl (fun result field =>
    match field.optional, getProperty result field.name, field.fallback with
    | false, .undefined, some fallback =>
      setProperty result field.name (if field.repeated then .array [fallback] else fallback)
    | _, _, _ => result) result

/-- An empty string or array that stands for null. -/
def isNullEquivalent : Schema → Value → Bool
  | .string s, .bytes b => b.isEmpty && (s.type = .byteString || 0 < s.minLength)
  | .string s, .string text => text.isEmpty && (s.type = .byteString || 0 < s.minLength)
  | .array _ minLength _, .array elements => elements.isEmpty && 0 < minLength
  | _, _ => false

variable {ρ : Type} (R : TlvReader ρ)

/-- The loop over the elements of an array. -/
def decodeArray (decodeElement : ρ → TlvTypeLength → Except TlvError (Value × ρ)) :
    Nat → ρ → List Value → Except TlvError (List Value × ρ)
  | 0, _, _ => .error .outOfFuel
  | fuel + 1, r, result => do
    let ((elementTag, elementTypeLength), r) ← R.readTagType r
    if elementTag ≠ none then
      .error (.unexpectedData "Array element tags should be anonymous.")
    else if elementTypeLength = .endOfContainer then .ok (result, r)
    else do
      let (element, r) ← decodeElement r elementTypeLength
      decodeArray decodeElement fuel r (result ++ [element])

/-- The loop over the elements of an object. Unknown fields are read and dropped. -/
def decodeObject (allowProtocolSpecificTags : Bool)
    (fields : List (FieldDecoder (ρ → TlvTypeLength → Except TlvError (Value × ρ)))) :
    Nat → ρ → List (String × Value) → Except TlvError (List (String × Value) × ρ)
  | 0, _, _ => .error .outOfFuel
  | fuel + 1, r, result => do
    let ((tag, elementTypeLength), r) ← R.readTagType r
    if elementTypeLength = .endOfContainer then .ok (result, r)
    else do
      let id ← checkObjectTag allowProtocolSpecificTags tag
      match fieldById fields id with
      | none => do
        let (_, r) ← AnySchema.decodeTlvInternalValue R r elementTypeLength
        decodeObject allowProtocolSpecificTags fields fuel r result
      | some field => do
        let (decoded, r) ← field.decode r elementTypeLength
        decodeObject allowProtocolSpecificTags fields fuel r
          (addDecoded result field.name field.repeated decoded)

def unexpectedType (typeLength : TlvTypeLength) : TlvError :=
  let type := typeLength.type
  .unexpectedData s!"Unexpected type {type}."

mutual

def Schema.decodeTlvInternalValue : Schema → ρ → TlvTypeLength → Except TlvError (Value × ρ)
  | .boolean, r, typeLength =>
    match typeLength with
    | .boolean value => .ok (.boolean value, r)
    | _ => .error (unexpectedType typeLength)
  | .numeric n, r, typeLength => do
    let relaxed ← n.checkType R.relaxNumberTypeChecks typeLength
    let (value, r) ← R.readPrimitive r typeLength
    let value ← n.finish relaxed value
    return (value, r)
  | .float _, r, typeLength =>
    match typeLength with
    | .float _ => do
      let (value, r) ← R.readPrimitive r typeLength
      return (.ofPrimitive value, r)
    | _ =>
      let type := typeLength.type
      .error (.unexpectedData s!"Unexpected type {type}, was expecting 10.")
  | .string s, r, typeLength =>
    match s.type, typeLength with
    | .byteString, .byteString _ | .utf8String, .utf8String _ => do
      let (value, r) ← R.readPrimitive r typeLength
      let value ← s.finish value
      return (value, r)
    | _, _ => .error (unexpectedType typeLength)
  | .nullable schema, r, typeLength =>
    match typeLength with
    | .null => .ok (.null, r)
    | _ => do
      let (value, r) ← schema.decodeTlvInternalValue r typeLength
      return (if isNullEquivalent schema value then .null else value, r)
  | .array elementSchema _ _, r, typeLength =>
    match typeLength with
    | .array => do
      let (elements, r) ← decodeArray R (fun r typeLength =>
        elementSchema.decodeTlvInternalValue r typeLength) (R.remaining r + 1) r []
      return (.array elements, r)
    | _ =>
      let type := typeLength.type
      .error (.unexpectedData s!"Unexpected type {type}, expected Array (22).")
  | .object settings fieldDefinitions, r, typeLength =>
    if typeLength = (if settings.isList then .list else .struct) then do
      let (result, r) ← decodeObject R settings.allowProtocolSpecificTags
        (fieldDecoders fieldDefinitions) (R.remaining r + 1) r []
      return (.object (applyFallbacks fieldDefinitions result), r)
    else
      let type := typeLength.type
      let expected := if settings.isList then 0x17 else 0x15
      .error (.unexpectedData s!"Unexpected type {type} (expected {expected}).")
  | .any, r, typeLength => do
    let (tlvStream, r) ← AnySchema.decodeTlvInternalValue R r typeLength
    return (.stream tlvStream, r)
  | .void, _, _ | .noArguments, _, _ =>
    .error (.internal "decodeTlvInternalValue should never be called")
  | .wrapper underlyingSchema _ unwrap, r, typeLength => do
    let (value, r) ← underlyingSchema.decodeTlvInternalValue r typeLength
    let value ← unwrap value
    return (value, r)

def fieldDecoders : List (Field Schema) →
    List (FieldDecoder (ρ → TlvTypeLength → Except TlvError (Value × ρ)))
  | [] => []
  | ⟨name, id, schema, _, repeated, _, _, _⟩ :: fields =>
    ⟨name, id, repeated, fun r typeLength => schema.decodeTlvInternalValue r typeLength⟩ ::
      fieldDecoders fields

end

/-- `decodeTlvInternal`, for the value. -/
def Schema.decodeTlvInternal (schema : Schema) (r : ρ) : Except TlvError Value := do
  let ((_, typeLength), r) ← R.readTagType r
  let (value, _) ← schema.decodeTlvInternalValue R r typeLength
  return value

end Decode

section Validate

/-- A validation error from within gets the name of the part it was found in. -/
def inPart (part : String) (result : Except TlvError Unit) : Except TlvError Unit :=
  match result with
  | .error (.validation kind message fieldName) =>
    .error (.validation kind message (some (match fieldName with
      | some fieldName => s!"{part}.{fieldName}"
      | none => part)))
  | result => result

/-- All elements of an array, each under its index. -/
def validateElements (validate : Value → Except TlvError Unit) : Nat → List Value →
    Except TlvError Unit
  | _, [] => .ok ()
  | index, element :: elements => do
    inPart s!"[{index}]" (validate element)
    validateElements validate (index + 1) elements

/-- The elements of a repeated field, all under the name of the field. -/
def validateRepeated (name : String) (validate : Value → Except TlvError Unit) : List Value →
    Except TlvError Unit
  | [] => .ok ()
  | element :: elements => do
    inPart name (validate element)
    validateRepeated name validate elements

/-- The check of one field of an object. -/
def validateField (name : String) (optional repeated : Bool) (minLength maxLength : Option Nat)
    (validate : Value → Except TlvError Unit) (data : Value) : Except TlvError Unit :=
  match data with
  | .undefined =>
    if optional then .ok ()
    else .error (.validation .mandatoryFieldMissing s!"Missing mandatory field {name}" (some name))
  | data =>
    if repeated then
      let minLength := minLength.getD 2
      let maxLength := maxLength.getD 65535
      match data with
      | .array elements =>
        let length := elements.length
        if maxLength < length then
          .error (.validation .outOfBounds
            s!"Repeated field list for {name} is too long: {length}, max {maxLength}." (some name))
        else if length < minLength then
          .error (.validation .outOfBounds
            s!"Repeated field list for {name} is too short: {length}, min {minLength}." (some name))
        else validateRepeated name validate elements
      | _ => .error (.validation .datatypeMismatch
          s!"Repeated field {name} should be an array." (some name))
    else inPart name (validate data)

mutual

def Schema.validate : Schema → Value → Except TlvError Unit
  | .boolean, value =>
    match value with
    | .boolean _ => .ok ()
    | _ =>
      let type := value.typeof
      .error (.validation .datatypeMismatch s!"Expected boolean, got {type}." none)
  | .numeric n, value => n.validate value
  | .float f, value =>
    match value with
    | .float x =>
      if x.lt? f.min then
        .error (.validation .outOfBounds "Invalid value: it is below the minimum." none)
      else if f.max.lt? x then
        .error (.validation .outOfBounds "Invalid value: it is above the maximum." none)
      else .ok ()
    | _ =>
      let type := value.typeof
      .error (.validation .datatypeMismatch s!"Expected number, got {type}." none)
  | .string s, value => s.validate value
  | .nullable schema, value =>
    match value with
    | .null => .ok ()
    | value => schema.validate value
  | .array elementSchema minLength maxLength, value =>
    match value with
    | .array elements =>
      let length := elements.length
      if maxLength < length then
        .error (.validation .outOfBounds s!"Array is too long: {length}, max {maxLength}." none)
      else if length < minLength then
        .error (.validation .outOfBounds s!"Array is too short: {length}, min {minLength}." none)
      else validateElements (fun element => elementSchema.validate element) 0 elements
    | _ =>
      let type := value.typeof
      .error (.validation .datatypeMismatch s!"Expected array, got {type}." none)
  | .object _ fieldDefinitions, value =>
    match value with
    | .object properties => validateFields fieldDefinitions properties
    -- a property of another value is undefined, and of none at all an error
    | .undefined | .null => .error .typeError
    | _ => validateFields fieldDefinitions []
  | .any, value =>
    match value with
    | .stream _ => .ok ()
    | _ =>
      let type := value.typeof
      .error (.validation .datatypeMismatch s!"Expected TlvStream, got {type}." none)
  | .void, value | .noArguments, value =>
    match value with
    | .undefined => .ok ()
    | _ =>
      let type := value.typeof
      .error (.validation .datatypeMismatch s!"Expected void, got {type}." none)
  | .wrapper underlyingSchema wrap _, value => do
    let value ← wrap value
    underlyingSchema.validate value

def validateFields : List (Field Schema) → List (String × Value) → Except TlvError Unit
  | [], _ => .ok ()
  | ⟨name, _, schema, optional, repeated, minLength, maxLength, _⟩ :: fields, properties => do
    validateField name optional repeated minLength maxLength (fun data => schema.validate data)
      (getProperty properties name)
    validateFields fields properties

end

end Validate

namespace Schema

variable (schema : Schema) (value : Value)

def encodeInternal : Except TlvError (List UInt8) := do
  let w ← schema.encodeTlvInternal tlvByteArrayWriter {} value none .empty
  return w.bytes

def encodeTlv (options : TlvEncodingOptions := {}) :
    Except TlvError TlvStream :=
  schema.encodeTlvInternal tlvArrayWriter options value none []

variable (encoded : List UInt8)

def decodeInternal : Except TlvError Value :=
  schema.decodeTlvInternal tlvByteArrayReader (.of encoded)

def encode : Except TlvError (List UInt8) := do
  schema.validate value
  schema.encodeInternal value

def decode : Except TlvError Value := do
  let result ← schema.decodeInternal encoded
  schema.validate result
  return result

end Schema

structure TlvDecodingOptions where
  relaxNumberTypeChecks : Bool := false

/-- `decodeTlv` under options. The schema without a value reads nothing of a stream. -/
def Schema.decodeTlvWith (options : TlvDecodingOptions) (schema : Schema) (encoded : TlvStream) :
    Except TlvError Value :=
  match schema with
  | .void | .noArguments => .ok .undefined
  | schema => schema.decodeTlvInternal
    { tlvArrayReader with relaxNumberTypeChecks := options.relaxNumberTypeChecks }
    (.of encoded)

end MatterJs.Tlv
