import MatterJs.Tlv.ReaderPaths

/-!
# The length of encoded elements

`TlvAny.getEncodedByteLength` against the bytes that are written. A writer either
appends the same bytes wherever it stands, or fails wherever it stands.
-/
namespace MatterJs.Tlv

open TlvCodec AnySchema List

def FloatLength.bytes : FloatLength → Nat
  | .fourBytes => 4
  | .eightBytes => 8

namespace TlvCodec

def getTagByteLength (tag : Option TlvTag) : Except TlvError Nat :=
  match (tag.bind TlvTag.profile), (tag.bind TlvTag.id) with
  | none, none => .ok 1
  | none, some _ => .ok 2
  | some profile, none =>
    if profile = matterCommonProfile then
      .error (.unexpectedData "Invalid TLV tag: id should be defined for a datatype profile.")
    else .error (.unexpectedData "Invalid TLV tag: id should be defined for a custom profile.")
  | some profile, some id =>
    if profile = matterCommonProfile then if fits16 id then .ok 3 else .ok 5
    else if fits16 id then .ok 7 else .ok 9

def getPrimitiveByteLength (typeLength : TlvTypeLength) (value : Option TlvValue) :
    Except TlvError Nat :=
  match typeLength, value with
  | .signedInt length, _ | .unsignedInt length, _ => .ok length.bytes
  | .float length, _ => .ok length.bytes
  | .utf8String length, some (.string s) => .ok (length.bytes + (TextCodec.encode s).length)
  | .byteString length, some (.bytes b) => .ok (length.bytes + b.length)
  | .utf8String _, _ | .byteString _, _ => .error .typeError
  | .boolean _, _ => .ok 0
  | typeLength, _ =>
    let type := typeLength.type
    .error (.unexpectedData s!"Unexpected TLV type {type}")

end TlvCodec

namespace AnySchema

/-- The length of one element. Elements of other types are skipped. -/
def elementByteLength (e : TlvElement) : Except TlvError Nat :=
  match e.typeLength with
  | .null | .boolean _ | .array | .struct | .list | .endOfContainer =>
    getTagByteLength e.tag
  | .unsignedInt _ | .signedInt _ | .float _ | .utf8String _ | .byteString _ => do
    let tagByteLength ← getTagByteLength e.tag
    let primitiveByteLength ← getPrimitiveByteLength e.typeLength e.value
    return tagByteLength + primitiveByteLength
  | .reserved _ => .ok 0

def getEncodedByteLength (tlvStream : TlvStream) : Except TlvError Nat :=
  tlvStream.foldlM (fun byteLength e => do
    let elementLength ← elementByteLength e return byteLength + elementLength) 0

end AnySchema

/-- The writer appends bytes of this length wherever it stands, or fails everywhere. -/
def Measured (f : DataWriter → Except TlvError DataWriter) (length : Except TlvError Nat) : Prop :=
  (∃ bs, Writes f bs ∧ length = .ok bs.length) ∨ ∃ e, ∀ w, f w = .error e

variable {s : TlvStream} {bs : List UInt8}

section Measured

variable {f g : DataWriter → Except TlvError DataWriter} {x y : Except TlvError Nat}

theorem Measured.bind (hf : Measured f x) (hg : Measured g y) :
    Measured (fun w => f w >>= g) (x >>= fun m => y >>= fun n => pure (m + n)) := by
  rcases hf with ⟨bs, hw, rfl⟩ | ⟨e, he⟩
  · rcases hg with ⟨bs', hw', rfl⟩ | ⟨e, he⟩
    · refine .inl ⟨bs ++ bs', hw.bind hw', ?_⟩
      rw [length_append]
      rfl
    · refine .inr ⟨e, fun w => ?_⟩
      simp [hw w, ok_bind, he]
  · refine .inr ⟨e, fun w => ?_⟩
    simp [he w]

theorem writes_byteArray (bs : List UInt8) : Writes (fun w => .ok (w.writeByteArray bs)) bs :=
  fun _ => rfl

theorem Writes.then {k : DataWriter → DataWriter} {bs bs' : List UInt8}
    (hf : Writes (fun w => .ok (k w)) bs) :
    Writes (fun w => .ok ((k w).writeByteArray bs')) (bs ++ bs') := by
  intro w
  have hw := hf w
  rw [Except.ok.injEq] at hw
  simp [hw, DataWriter.writeByteArray]

theorem measured_writeTag (t : TlvTypeLength) (tag : Option TlvTag) :
    Measured (fun w => writeTag w t tag) (getTagByteLength tag) := by
  rcases tag with _ | ⟨_ | p, _ | id⟩
  · exact .inl ⟨_, writes_byteArray _, rfl⟩
  · exact .inl ⟨_, writes_byteArray _, rfl⟩
  · exact .inl ⟨_, (writes_byteArray _).then, rfl⟩
  · refine .inr ?_
    simp only [writeTag, Option.bind_some]
    split_ifs
    · exact ⟨_, fun _ => rfl⟩
    · exact ⟨_, fun _ => rfl⟩
  · refine .inl ?_
    simp only [writeTag, getTagByteLength, Option.bind_some]
    split_ifs
    · exact ⟨_, (writes_byteArray _).then, rfl⟩
    · exact ⟨_, (writes_byteArray _).then, rfl⟩
    · exact ⟨_, (writes_byteArray _).then.then, rfl⟩
    · exact ⟨_, (writes_byteArray _).then.then, rfl⟩

theorem writes_uint (l : TlvLength) (v : Int) :
    ∃ bs, Writes (fun w => .ok (writeUInt w l v)) bs ∧ bs.length = l.bytes := by
  cases l with
  | _ => exact ⟨_, writes_byteArray _, LittleEndian.length_encodeInt _ _⟩

theorem measured_writePrimitive {t : TlvTypeLength} (h : t.HasValue) (v : Option TlvValue) :
    Measured (fun w => writePrimitive w t v) (getPrimitiveByteLength t v) := by
  cases t with
  | signedInt le =>
    unfold writePrimitive
    rcases integral (.signedInt le) v with _ | v
    · exact .inr ⟨_, fun _ => rfl⟩
    · cases v with
      | int n =>
        obtain ⟨bs, hw, hl⟩ := writes_uint le n
        exact .inl ⟨bs, hw, congrArg Except.ok hl.symm⟩
      | _ => exact .inr ⟨_, fun _ => rfl⟩
  | unsignedInt le =>
    unfold writePrimitive
    rcases integral (.unsignedInt le) v with _ | v
    · exact .inr ⟨_, fun _ => rfl⟩
    · cases v with
      | int n => cases le <;> exact .inl ⟨_, writes_byteArray _, rfl⟩
      | _ => exact .inr ⟨_, fun _ => rfl⟩
  | float le =>
    rcases v with _ | v
    · cases le <;> exact .inr ⟨_, fun _ => rfl⟩
    · cases v with
      | float x => cases le <;> exact .inl ⟨_, writes_byteArray _, rfl⟩
      | _ => cases le <;> exact .inr ⟨_, fun _ => rfl⟩
  | utf8String le =>
    rcases v with _ | v
    · exact .inr ⟨_, fun _ => rfl⟩
    · cases v with
      | string s =>
        obtain ⟨bs, hw, hl⟩ := writes_uint le (TextCodec.encode s).length
        refine .inl ⟨_, hw.then, ?_⟩
        rw [length_append, hl]
        rfl
      | _ => exact .inr ⟨_, fun _ => rfl⟩
  | byteString le =>
    rcases v with _ | v
    · exact .inr ⟨_, fun _ => rfl⟩
    · cases v with
      | bytes b =>
        obtain ⟨bs, hw, hl⟩ := writes_uint le b.length
        refine .inl ⟨_, hw.then, ?_⟩
        rw [length_append, hl]
        rfl
      | _ => exact .inr ⟨_, fun _ => rfl⟩
  | _ => cases h

theorem measured_encodeElement (tag : Option TlvTag) (e : TlvElement) :
    Measured (fun w => encodeElement tlvByteArrayWriter w tag e)
      (elementByteLength { e with tag }) := by
  obtain ⟨tag', t, value⟩ := e
  cases t with
  | null | boolean b | array | struct | list | endOfContainer => exact measured_writeTag _ tag
  | unsignedInt le | signedInt le | float le | utf8String le
  | byteString le =>
    exact (measured_writeTag _ tag).bind (measured_writePrimitive (by trivial) value)
  | reserved code => exact .inl ⟨[], fun w => by simp [encodeElement], rfl⟩

theorem byteLength_from (s : TlvStream) (t : Nat) : s.foldlM (fun b e => do
      let elementLength ← elementByteLength e return b + elementLength) t =
    getEncodedByteLength s >>= fun n => pure (t + n) := by
  unfold getEncodedByteLength
  induction s generalizing t with
  | nil => rfl
  | cons e s ih =>
    simp only [foldlM_cons]
    cases elementByteLength e with
    | error error => rfl
    | ok n =>
      simp only [ok_bind, pure_bind]
      rw [ih (t + n), ih (0 + n)]
      simp only [bind_assoc, pure_bind, Nat.zero_add, Nat.add_assoc]

theorem getEncodedByteLength_cons (e : TlvElement) (s : TlvStream) :
    getEncodedByteLength (e :: s) = elementByteLength e >>= fun m =>
      getEncodedByteLength s >>= fun n => pure (m + n) := by
  rw [getEncodedByteLength, foldlM_cons]
  cases elementByteLength e with
  | error error => rfl
  | ok m =>
    simp only [ok_bind, pure_bind]
    rw [byteLength_from, Nat.zero_add]

theorem measured_writeStream (s : TlvStream) :
    Measured (writeStream s) (getEncodedByteLength s) := by
  induction s with
  | nil => exact .inl ⟨[], fun w => by rw [append_nil]; rfl, rfl⟩
  | cons e s ih =>
    rw [getEncodedByteLength_cons]
    have h := (measured_encodeElement e.tag e).bind ih
    exact h

/-- What is written for a stream has the length that was announced. -/
theorem byteLength_of_writes
    (h : Writes (writeStream s) bs) : getEncodedByteLength s = .ok bs.length := by
  rcases measured_writeStream s with ⟨bs', hw, hl⟩ | ⟨e, he⟩
  · have hq := (hw .empty).symm.trans (h .empty)
    simp only [DataWriter.empty, nil_append, Except.ok.injEq, DataWriter.mk.injEq] at hq
    rw [hl, hq]
  · have := (he .empty).symm.trans (h .empty)
    cases this

end Measured

/-! ### What a reader takes from bytes can be written -/

/-- The element can be written wherever the writer stands. -/
def Writable (e : TlvElement) : Prop :=
  ∃ bs, Writes (fun w => encodeElement tlvByteArrayWriter w e.tag e) bs

def TagWritable (tag : Option TlvTag) : Prop :=
  ∀ typeLength, ∃ bs, Writes (fun w => writeTag w typeLength tag) bs

section Writable

variable {α β : Type} {r r' : DataReader} {tag : Option TlvTag} {t : TlvTypeLength}

theorem writes_of_writable (h : ∀ e ∈ s, Writable e) : ∃ bs, Writes (writeStream s) bs := by
  induction s with
  | nil => exact ⟨[], fun w => by rw [append_nil]; rfl⟩
  | cons e s ih =>
    obtain ⟨bs, hb⟩ := h e mem_cons_self
    obtain ⟨bs', hbs'⟩ := ih (fun e he => h e (mem_cons_of_mem _ he))
    exact ⟨bs ++ bs', hb.bind hbs'⟩

/-- A writer that writes somewhere writes everywhere. -/
theorem Measured.writes {f : DataWriter → Except TlvError DataWriter} {x : Except TlvError Nat}
    {w w' : DataWriter} (h : Measured f x) (hw : f w = .ok w') : ∃ bs, Writes f bs := by
  rcases h with ⟨bs, hb, -⟩ | ⟨e, he⟩
  · exact ⟨bs, hb⟩
  · rw [he w] at hw
    cases hw

theorem ok_of_map {x : Except TlvError (α × DataReader)} {g : α → β} {b : β}
    (h : (do let (a, r) ← x; return (g a, r)) = .ok (b, r')) : ∃ a, x = .ok (a, r') ∧ b = g a := by
  obtain ⟨⟨a, r⟩, rfl, h⟩ := ok_of_bind h
  cases h
  exact ⟨a, rfl, rfl⟩

theorem tagWritable_of_id (p : Option Nat) (id : Nat) : TagWritable (some ⟨p, some id⟩) := by
  intro t
  obtain ⟨w, hw⟩ : ∃ w, writeTag .empty t (some ⟨p, some id⟩) = .ok w := by
    cases p with
    | none => exact ⟨_, rfl⟩
    | some p =>
      simp only [writeTag, Option.bind_some]
      split_ifs <;> exact ⟨_, rfl⟩
  exact (measured_writeTag t _).writes hw

theorem tagWritable_none : TagWritable none := fun _ => ⟨_, writes_byteArray _⟩

theorem tagWritable_of_readTag {t : TagControl}
    (h : readTag r t = .ok (tag, r')) : TagWritable tag := by
  cases t with
  | anonymous =>
    cases h
    exact tagWritable_none
  | contextSpecific | commonProfile16 | commonProfile32 =>
    obtain ⟨id, -, rfl⟩ := ok_of_map (g := fun id => some (TlvTag.mk _ (some id))) h
    exact tagWritable_of_id _ id
  | fullyQualified48 =>
    obtain ⟨⟨p, r₁⟩, -, h⟩ := ok_of_bind h
    obtain ⟨id, -, rfl⟩ := ok_of_map (g := fun id => some (TlvTag.mk _ (some id))) h
    exact tagWritable_of_id _ id
  | implicitProfile16 | implicitProfile32 | fullyQualified64 => cases h

theorem tagWritable_of_read (h : readTagType r = .ok ((tag, t), r')) : TagWritable tag := by
  obtain ⟨⟨c, r₁⟩, -, h⟩ := ok_of_bind h
  obtain ⟨⟨tag', r₂⟩, ht, h⟩ := ok_of_bind h
  cases h
  exact tagWritable_of_readTag ht

theorem writes_of_readPrimitive {v : TlvValue} (hv : t.HasValue)
    (h : readPrimitive r t = .ok (v, r')) :
    ∃ bs, Writes (fun w => writePrimitive w t (some v)) bs := by
  obtain ⟨w, hw⟩ : ∃ w, writePrimitive .empty t (some v) = .ok w := by
    cases t with
    | signedInt le =>
      cases le <;> obtain ⟨n, -, rfl⟩ := ok_of_map (g := TlvValue.int) h <;> exact ⟨_, rfl⟩
    | unsignedInt le =>
      cases le <;> obtain ⟨n, -, rfl⟩ := ok_of_map (g := fun n : Nat => TlvValue.int n) h <;>
        exact ⟨_, rfl⟩
    | float le =>
      cases le <;> obtain ⟨x, -, rfl⟩ := ok_of_map (g := TlvValue.float) h <;> exact ⟨_, rfl⟩
    | utf8String le =>
      obtain ⟨n, -, h⟩ := ok_of_bind h
      obtain ⟨x, -, rfl⟩ := ok_of_map (g := TlvValue.string) h
      exact ⟨_, rfl⟩
    | byteString le =>
      obtain ⟨n, -, h⟩ := ok_of_bind h
      obtain ⟨x, -, rfl⟩ := ok_of_map (g := TlvValue.bytes) h
      exact ⟨_, rfl⟩
    | _ => cases hv
  exact (measured_writePrimitive hv _).writes hw

theorem writable_of_reads {l : Option TlvValue} (ht : TagWritable tag)
    (h : ReadsValue tlvByteArrayReader t l r r') : Writable ⟨tag, t, l⟩ := by
  obtain ⟨bs, hb⟩ := ht t
  cases t with
  | null | boolean | endOfContainer => exact ⟨bs, hb⟩
  | reserved => exact ⟨[], fun w => by simp [encodeElement]⟩
  | struct | array | list => cases h
  | signedInt | unsignedInt | float | utf8String | byteString =>
    obtain ⟨v, hd, rfl⟩ := ok_of_map (g := some) h
    obtain ⟨bs', hbs'⟩ := writes_of_readPrimitive (by trivial) hd
    exact ⟨bs ++ bs', hb.bind hbs'⟩

mutual

theorem writable_of_yieldsValue {r r' : DataReader} : (t : Tree) → TagWritable t.tag →
    YieldsValue tlvByteArrayReader t r r' → ∀ e ∈ t.stream, Writable e
  | .leaf e, ht, h => by
    rintro _ ⟨⟩
    · exact writable_of_reads ht h
    · contradiction
  | .node tag kind children endTag, ht, h => by
    obtain ⟨r₁, hc, hn⟩ := h
    intro e he
    simp only [Tree.stream, mem_cons, mem_append, not_mem_nil, or_false] at he
    rcases he with rfl | hh | rfl
    · cases kind <;> exact ht _
    · exact writable_of_yieldsAll children hc e hh
    · exact tagWritable_of_read hn _

theorem writable_of_yieldsAll {r r' : DataReader} : (ts : List Tree) →
    YieldsAll tlvByteArrayReader ts r r' → ∀ e ∈ Tree.streams ts, Writable e
  | [], _ => by
    rintro _ ⟨⟩
  | t :: ts, h => by
    obtain ⟨r₁, r₂, -, ha, hv, hs⟩ := h
    intro e he
    rcases mem_append.mp he with hh | ht
    · exact writable_of_yieldsValue t (tagWritable_of_read ha) hv e hh
    · exact writable_of_yieldsAll ts hs e ht

end

theorem writes_of_anyDecode {b : List UInt8} (h : decode b = .ok s) :
    ∃ bs, Writes (writeStream s) bs := by
  obtain ⟨t, r, ⟨r₁, -, hv⟩, rfl⟩ := yields_of_anyDecode h
  refine writes_of_writable fun e he => ?_
  refine writable_of_yieldsValue (t.withTag none) ?_ ((yieldsValue_withTag none).mpr hv) e
    (mem_filter.mp he).1
  cases t <;> exact tagWritable_none

end Writable

theorem byteLength_of_encode (h : encode s = .ok bs) : getEncodedByteLength s = .ok bs.length := by
  rw [anyEncode_eq] at h
  obtain ⟨w, hw, h⟩ := ok_of_bind h
  obtain ⟨bs', hb⟩ := (measured_writeStream s).writes hw
  rw [hb] at hw
  cases hw
  cases h
  exact byteLength_of_writes hb

/-- The announced length is the number of bytes written: for the stream of any schema that can be
written, as it can whenever the schema encodes the value to bytes, and for every stream that was
read from bytes. -/
theorem getEncodedByteLength_eq (s : Schema) (value : Value) (options : TlvEncodingOptions)
    (encoded : List UInt8) :
    (∀ stream bytes, s.encodeTlv value options = .ok stream → encode stream = .ok bytes →
      getEncodedByteLength stream = .ok bytes.length) ∧
    (∀ bytes, s.encode value = .ok bytes →
      ∃ stream, s.encodeTlv value = .ok stream ∧ encode stream = .ok bytes ∧
        getEncodedByteLength stream = .ok bytes.length) ∧
    ∀ stream, decode encoded = .ok stream →
      ∃ bytes, encode stream = .ok bytes ∧ getEncodedByteLength stream = .ok bytes.length := by
  refine ⟨fun _ _ _ hb => byteLength_of_encode hb, ?_, ?_⟩
  · intro bytes he
    obtain ⟨-, -, hi⟩ := ok_of_bind he
    have hm := encodeInternal_eq_encodeTlv s value
    rw [hi] at hm
    rcases ht : s.encodeTlv value >>= encode with e | by'
    · rw [ht] at hm
      cases hm
    · rw [ht] at hm
      cases hm
      obtain ⟨stream, hs, hb⟩ := ok_of_bind ht
      exact ⟨stream, hs, hb, byteLength_of_encode hb⟩
  · intro stream hd
    obtain ⟨bs, hbs⟩ := writes_of_anyDecode hd
    exact ⟨bs, anyEncode_of_writes hbs, byteLength_of_writes hbs⟩

end MatterJs.Tlv
