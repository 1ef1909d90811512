import MatterJs.Tlv.WriterPaths

/-!
# Reading bytes and reading streams

A schema with a value finds the same one in bytes and in the elements `TlvAny` reads
from them, as long as no element has one of the types 0x19 to 0x1f. `TlvAny` drops
those, and the byte reader does not.
-/
namespace MatterJs.Tlv

open AnySchema List Tree

/-- The elements of a tree that `TlvAny` keeps. -/
def Tree.kept (t : Tree) : TlvStream := t.stream.filter (fun e => ¬ e.typeLength.IsReserved)

theorem kept_node (tag t : Option TlvTag) (kind : ContainerKind) (c : List Tree) :
    (node tag kind c t).kept = ⟨tag, kind.typeLength, none⟩ ::
      ((streams c).filter (fun e => ¬ e.typeLength.IsReserved) ++
        [⟨t, .endOfContainer, none⟩]) := by
  cases kind <;> simp [Tree.kept, stream, ContainerKind.typeLength, TlvTypeLength.IsReserved]

variable {t : Tree}

theorem kept_eq_stream (h : NoReserved t.stream) : t.kept = t.stream := by
  refine filter_eq_self.mpr fun e he => ?_
  simpa using h e he

section Accepted

variable {ρ : Type} {R : TlvReader ρ}

mutual

/-- What the decoder of any elements accepts is a tree. -/
theorem yieldsValue_of_decode
    (hb : ∀ r b, R.readPrimitive r (.boolean b) = .ok (some (.boolean b), r))
    {l : TlvTypeLength} {tag : Option TlvTag} {c o : TlvStream} {r r' : ρ} :
    (f : Nat) → decodeTlvValueRec R f r l c tag = .ok (o, r') →
    ∃ t : Tree, t.tag = tag ∧ t.typeLength = l ∧ YieldsValue R t r r' ∧ o = c ++ t.kept
  | 0, h => by cases h
  | f + 1, h => by
    have hc : ∀ kind : ContainerKind,
        decodeElements R f r (c ++ [⟨tag, kind.typeLength, none⟩]) = .ok (o, r') →
        ∃ t : Tree, t.tag = tag ∧ t.typeLength = kind.typeLength ∧ YieldsValue R t r r' ∧
          o = c ++ t.kept := by
      intro kind h
      obtain ⟨ts, e, r₁, ht, he, ho⟩ := yieldsAll_of_decode hb f h
      refine ⟨.node tag kind ts e, rfl, rfl, ⟨r₁, ht, he⟩, ?_⟩
      rw [ho, kept_node, append_assoc]
      rfl
    cases l with
    | null | endOfContainer =>
      cases h
      exact ⟨.leaf ⟨tag, _, _⟩, rfl, rfl, ⟨rfl, rfl⟩, rfl⟩
    | reserved code =>
      cases h
      exact ⟨.leaf ⟨tag, .reserved code, none⟩, rfl, rfl, ⟨rfl, rfl⟩, (append_nil c).symm⟩
    | boolean b =>
      simp only [decodeTlvValueRec, hb, ok_bind] at h
      cases h
      exact ⟨.leaf ⟨tag, .boolean b, some (.boolean b)⟩, rfl, rfl, ⟨rfl, hb r b, rfl⟩, rfl⟩
    | unsignedInt le | signedInt le | float le | utf8String le
    | byteString le =>
      obtain ⟨x, hd, h⟩ := ok_of_bind h
      cases h
      exact ⟨.leaf ⟨tag, _, x.1⟩, rfl, rfl, hd, rfl⟩
    | struct => exact hc .struct h
    | array => exact hc .array h
    | list => exact hc .list h

theorem yieldsAll_of_decode
    (hb : ∀ r b, R.readPrimitive r (.boolean b) = .ok (some (.boolean b), r))
    {a o : TlvStream} {r r' : ρ} :
    (f : Nat) → decodeElements R f r a = .ok (o, r') →
    ∃ ts et r₁, YieldsAll R ts r r₁ ∧ R.readTagType r₁ = .ok ((et, .endOfContainer), r') ∧
      o = a ++ ((streams ts).filter (fun e => ¬ e.typeLength.IsReserved) ++
        [⟨et, .endOfContainer, none⟩])
  | 0, h => by cases h
  | f + 1, h => by
    simp only [decodeElements] at h
    obtain ⟨⟨⟨tag, typeLength⟩, r₁⟩, hd, h⟩ := ok_of_bind h
    obtain ⟨⟨out', r₂⟩, hl, h⟩ := ok_of_bind h
    by_cases hn : typeLength = .endOfContainer
    · subst hn
      cases f with
      | zero => cases hl
      | succ f =>
        cases hl
        cases h
        exact ⟨[], tag, r, rfl, hd, rfl⟩
    · obtain ⟨t, rfl, rfl, hv, ho⟩ := yieldsValue_of_decode hb f hl
      rw [if_neg hn] at h
      obtain ⟨ts, et, r₃, ht, he, ho'⟩ := yieldsAll_of_decode hb f h
      refine ⟨t :: ts, et, r₃, ⟨r₁, r₂, hn, hd, hv, ht⟩, he, ?_⟩
      simp [ho', ho, Tree.kept, streams]

end

end Accepted

/-- The element an array reader stands at behind the tag of a tree. -/
def Tree.root : Tree → TlvElement
  | .leaf e => e
  | .node tag kind _ _ => ⟨tag, kind.typeLength, none⟩

/-- The elements behind the first one. -/
def Tree.tail : Tree → TlvStream
  | .leaf _ => []
  | .node _ _ children endTag => streams children ++ [⟨endTag, .endOfContainer, none⟩]

section ArrayReader

variable {ρ : Type} {R : TlvReader ρ}

theorem readTagType_stream (t : Tree) (c : Option TlvElement) (r : TlvStream) :
    tlvArrayReader.readTagType ⟨c, t.stream ++ r⟩ =
      .ok ((t.tag, t.typeLength), ⟨some t.root, t.tail ++ r⟩) := by
  cases t <;> rfl

mutual

/-- The elements of what one reader went through are read by an array reader alike. -/
theorem yieldsValue_array {r r' : ρ} : (t : Tree) → YieldsValue R t r r' → (e : TlvStream) →
    ∃ c, YieldsValue tlvArrayReader t ⟨some t.root, t.tail ++ e⟩ ⟨c, e⟩
  | .leaf ⟨tag, typeLength, value⟩, h, e => by
    refine ⟨some ⟨tag, typeLength, value⟩, ?_⟩
    cases typeLength with
    | null | endOfContainer | reserved code => exact ⟨h.1, rfl⟩
    | boolean b => exact ⟨h.1, rfl, rfl⟩
    | unsignedInt length | signedInt length | float length | utf8String length
    | byteString length => rfl
    | struct | array | list => cases h
  | .node tag kind children endTag, ⟨r₁, hc, _⟩, e => by
    obtain ⟨c, hc⟩ := yieldsAll_array children hc (some ⟨tag, kind.typeLength, none⟩)
      (⟨endTag, .endOfContainer, none⟩ :: e)
    refine ⟨some ⟨endTag, .endOfContainer, none⟩,
      ⟨c, ⟨endTag, .endOfContainer, none⟩ :: e⟩, ?_, rfl⟩
    rw [Tree.tail, append_assoc]
    exact hc

theorem yieldsAll_array {r r' : ρ} : (ts : List Tree) → YieldsAll R ts r r' →
    (c : Option TlvElement) → (e : TlvStream) →
    ∃ c', YieldsAll tlvArrayReader ts ⟨c, streams ts ++ e⟩ ⟨c', e⟩
  | [], _, c, e => ⟨c, rfl⟩
  | t :: ts, ⟨r₁, r₂, he, _, hv, hs⟩, c, e => by
    obtain ⟨c₁, hv⟩ := yieldsValue_array t hv (streams ts ++ e)
    obtain ⟨c₂, hs⟩ := yieldsAll_array ts hs c₁ e
    refine ⟨c₂, _, _, he, ?_, hv, hs⟩
    rw [streams, append_assoc]
    exact readTagType_stream t c _

end

theorem yieldsValue_withTag {r r' : ρ} (tag : Option TlvTag) :
    YieldsValue R (t.withTag tag) r r' ↔ YieldsValue R t r r' := by
  cases t <;> rfl

end ArrayReader

/-- No schema looks at the tag of the element it decodes. -/
theorem decodeTree_withTag (r : Bool) (tag : Option TlvTag) (t : Tree) : (s : Schema) →
    s.decodeTree r (t.withTag tag) = s.decodeTree r t
  | .nullable s => by
    simp only [Schema.decodeTree, decodeTree_withTag r tag t s]
    cases t <;> rfl
  | .wrapper s _ _ => by simp only [Schema.decodeTree, decodeTree_withTag r tag t s]
  | .array s _ _ => by
    cases t with
    | leaf e => rfl
    | node tag' kind children endTag => cases kind <;> simp [withTag] <;> rfl
  | .boolean | .numeric _ | .float _ | .string _ | .object _ _ | .any | .void | .noArguments => by
    cases t <;> simp [Schema.decodeTree] <;> rfl

/-- Bytes that are read as an element without parts of the types 0x19 to 0x1f. -/
def ReservedFree (b : List UInt8) : Prop :=
  ∃ t r, Yields tlvByteArrayReader t (.of b) r ∧ NoReserved t.stream

variable {ρ : Type} {b : List UInt8} {s : Schema}

theorem decodeTlvInternal_of_yields {R : TlvReader ρ} (hR : R.Progresses)
    {r r' : ρ} (h : Yields R t r r') (hn : NoReserved t.stream) (s : Schema) :
    s.decodeTlvInternal R r = s.decodeTree R.relaxNumberTypeChecks t := by
  obtain ⟨r₁, ht, hv⟩ := h
  have := decodeValue_of_yields hR s t r₁ r' hv hn
  simp only [Schema.decodeTlvInternal, ht, ok_bind, this, thenAt]
  cases s.decodeTree R.relaxNumberTypeChecks t <;> rfl

theorem withTag_withTag (t : Tree) (tag tag' : Option TlvTag) :
    (t.withTag tag).withTag tag' = t.withTag tag' := by
  cases t <;> rfl

theorem noReserved_withTag (tag : Option TlvTag) :
    NoReserved (t.withTag tag).stream ↔ NoReserved t.stream := by
  cases t <;> simp [NoReserved, withTag, stream]

/-- A stream without reserved types is decoded like the bytes. -/
theorem decodeInternal_of_yields {r : DataReader}
    (h : Yields tlvByteArrayReader t (.of b) r) (hn : NoReserved t.stream) (s : Schema) :
    s.decodeInternal b = s.decodeTlvInternal tlvArrayReader (.of (t.withTag none).stream) := by
  obtain ⟨r₁, ht, hv⟩ := h
  obtain ⟨c, hv'⟩ := yieldsValue_array _ ((yieldsValue_withTag none).mpr hv) []
  have hd := readTagType_stream (t.withTag none) none []
  simp only [append_nil] at hd hv'
  have hs := decodeTlvInternal_of_yields array_progresses ⟨_, hd, hv'⟩
    ((noReserved_withTag none).mpr hn) s
  rw [Schema.decodeInternal, ArrayReader.of, hs, decodeTree_withTag]
  exact decodeTlvInternal_of_yields byteArray_progresses ⟨r₁, ht, hv⟩ hn s

/-- The schemas that take an element without parts. -/
def Schema.Scalar : Schema → Prop
  | .boolean | .numeric _ | .float _ | .string _ | .void | .noArguments => True
  | .nullable s | .wrapper s _ _ => s.Scalar
  | .array .. | .object .. | .any => False

/-- The schemas without a value. The stream is not read for them, and bytes are refused. -/
def Schema.IsVoid : Schema → Prop
  | .void | .noArguments => True
  | _ => False

theorem decodeTlvWith_eq (h : ¬ s.IsVoid) (stream : TlvStream) :
    s.decodeTlvWith {} stream = s.decodeTlvInternal tlvArrayReader (.of stream) := by
  cases s <;> first | rfl | exact absurd trivial h

/-- The types of elements with parts, and those without a meaning. -/
def TlvTypeLength.IsComposite : TlvTypeLength → Prop
  | .struct | .array | .list | .reserved _ => True
  | _ => False

variable {ty : TlvTypeLength}

theorem Schema.Scalar.refuses {R : TlvReader ρ}
    (ht : ty.IsComposite) (r : ρ) : (s : Schema) → s.Scalar →
    (s.decodeTlvInternalValue R r ty).toOption = none
  | .boolean, _ | .float _, _ => by cases ty <;> first | rfl | cases ht
  | .numeric n, _ => by
    simp only [Schema.decodeTlvInternalValue, NumericSchema.checkType]
    cases ty <;> cases n.type <;> first | rfl | cases ht
  | .string s, _ => by
    simp only [Schema.decodeTlvInternalValue]
    cases ty <;> cases s.type <;> first | rfl | cases ht
  | .void, _ | .noArguments, _ => rfl
  | .nullable s, h => by
    have ih := Schema.Scalar.refuses (R := R) ht r s h
    simp only [Schema.decodeTlvInternalValue]
    cases ty <;> first
      | exact False.elim ht
      | simp only [toOption_bind, ih, Option.bind_none]
  | .wrapper s _ _, h => by
    have ih := Schema.Scalar.refuses (R := R) ht r s h
    simp [Schema.decodeTlvInternalValue, toOption_bind, ih]

theorem Schema.Scalar.decodeTlvInternal_refuses {R : TlvReader ρ} (h : s.Scalar)
    {r r₁ : ρ} {tag : Option TlvTag} (hd : R.readTagType r = .ok ((tag, ty), r₁))
    (ht : ty.IsComposite) : (s.decodeTlvInternal R r).toOption = none := by
  simp only [Schema.decodeTlvInternal, hd, ok_bind, toOption_bind,
    Schema.Scalar.refuses ht r₁ s h, Option.bind_none]

/-- What `TlvAny.decode` accepts is a tree, of which it returns what it keeps. -/
theorem yields_of_anyDecode {s : TlvStream} (h : decode b = .ok s) :
    ∃ ty r, Yields tlvByteArrayReader ty (.of b) r ∧ s = (ty.withTag none).kept := by
  obtain ⟨⟨⟨tag, l⟩, r⟩, hd, h⟩ := ok_of_bind h
  obtain ⟨⟨o, r'⟩, he, h⟩ := ok_of_bind h
  cases h
  obtain ⟨ty, ht, rfl, hv, ho⟩ := yieldsValue_of_decode (fun _ _ => rfl) _ he
  refine ⟨ty.withTag tag, r', ⟨r, ?_, (yieldsValue_withTag tag).mpr hv⟩, ?_⟩
  · cases ty <;> exact hd
  · rw [ho, withTag_withTag, ← ht, withTag_tag, nil_append]

/-- A scalar schema agrees on all bytes, as it refuses what has parts on both ways. -/
theorem Schema.Scalar.decode_eq (h : s.Scalar) {st : TlvStream} (hb : AnySchema.decode b = .ok st) :
    (s.decodeInternal b).toOption = (s.decodeTlvInternal tlvArrayReader (.of st)).toOption := by
  obtain ⟨ty, r, hy, rfl⟩ := yields_of_anyDecode hb
  obtain ⟨r₁, hrd, hv⟩ := id hy
  cases ty with
  | node tag kind c et =>
    have ht : kind.typeLength.IsComposite := by cases kind <;> trivial
    have hd : (s.decodeInternal b).toOption = none := h.decodeTlvInternal_refuses hrd ht
    rw [hd, withTag, kept_node]
    exact (h.decodeTlvInternal_refuses rfl ht).symm
  | leaf e =>
    by_cases hr : e.typeLength.IsReserved
    · obtain ⟨tag, l, value⟩ := e
      have ht : l.IsComposite := by cases l <;> trivial
      have hd : (s.decodeInternal b).toOption = none := h.decodeTlvInternal_refuses hrd ht
      rw [hd, show (withTag none (.leaf ⟨tag, l, value⟩)).kept = [] by
        simpa [Tree.kept, withTag, stream] using hr]
      rfl
    · have hn : NoReserved (leaf e).stream := by simpa [NoReserved, stream] using hr
      rw [decodeInternal_of_yields hy hn s, kept_eq_stream ((noReserved_withTag none).mpr hn)]

/-- No conversion stands around the schema. -/
def Schema.Plain : Schema → Prop
  | .wrapper .. => False
  | .nullable s => s.Plain
  | _ => True

/-- A null of its own changes nothing for an element of another type. -/
theorem nullable_isSome {R : TlvReader ρ} {r : ρ} (s : Schema) (h : ∀ x, R.readTagType r = .ok x →
    x.1.2 ≠ .null) : ((Schema.nullable s).decodeTlvInternal R r).toOption.isSome =
    (s.decodeTlvInternal R r).toOption.isSome := by
  simp only [Schema.decodeTlvInternal]
  cases hd : R.readTagType r with
  | error e => rfl
  | ok x =>
    obtain ⟨⟨tag, ty⟩, r₁⟩ := x
    simp only [ok_bind, Schema.decodeTlvInternalValue]
    cases s.decodeTlvInternalValue R r₁ ty <;> cases ty <;> simp_all <;> rfl

/-- Accepted bytes, of an element that is not null, which one of the two ways refuses. -/
structure Disagrees (s : Schema) (b : List UInt8) (stream : TlvStream) : Prop where
  accepted : decode b = .ok stream
  bytes_ne_null : ∀ x, tlvByteArrayReader.readTagType (.of b) = .ok x → x.1.2 ≠ .null
  stream_ne_null : ∀ x, tlvArrayReader.readTagType (.of stream) = .ok x → x.1.2 ≠ .null
  refused : (s.decodeInternal b).toOption.isSome ≠
    (s.decodeTlvInternal tlvArrayReader (.of stream)).toOption.isSome

theorem Disagrees.nullable {ty : TlvStream}
    (h : Disagrees s b ty) : Disagrees (.nullable s) b ty where
  accepted := h.accepted
  bytes_ne_null := h.bytes_ne_null
  stream_ne_null := h.stream_ne_null
  refused := by
    rw [Schema.decodeInternal, nullable_isSome s h.bytes_ne_null,
      nullable_isSome s h.stream_ne_null]
    exact h.refused

/-- An array with a tagged element of a type without a meaning: 16 39 01 18. -/
theorem disagrees_array (s : Schema) (l m : Nat) :
    Disagrees (.array s l m) [0x16, 0x39, 0x01, 0x18]
      [⟨none, .array, none⟩, ⟨none, .endOfContainer, none⟩] where
  accepted := rfl
  bytes_ne_null := by rintro _ ⟨⟩; decide
  stream_ne_null := by rintro _ ⟨⟩; decide
  refused := Bool.false_ne_true

/-- A structure with such an element that has no tag: 15 19 18, or 17 19 18 for a list. -/
theorem disagrees_object (s : ObjectSettings) (f : List (Field Schema)) :
    ∃ b stream, Disagrees (.object s f) b stream := by
  obtain ⟨i, p, d⟩ := s
  cases i with
  | true => exact ⟨[0x17, 0x19, 0x18], [⟨none, .list, none⟩, ⟨none, .endOfContainer, none⟩], rfl,
      by rintro _ ⟨⟩; decide, by rintro _ ⟨⟩; decide, Bool.false_ne_true⟩
  | false => exact ⟨[0x15, 0x19, 0x18], [⟨none, .struct, none⟩, ⟨none, .endOfContainer, none⟩], rfl,
      by rintro _ ⟨⟩; decide, by rintro _ ⟨⟩; decide, Bool.false_ne_true⟩

/-- Every schema that takes elements with parts has bytes on which the ways disagree. -/
theorem Schema.Plain.disagrees : (s : Schema) → s.Plain → ¬ s.Scalar → ∃ b ty, Disagrees s b ty
  | .any, _, _ => ⟨[0x19], [], rfl, by rintro _ ⟨⟩; decide, by rintro _ ⟨⟩, Bool.noConfusion⟩
  | .array s minLength maxLength, _, _ => ⟨_, _, disagrees_array s minLength maxLength⟩
  | .object settings fields, _, _ => disagrees_object settings fields
  | .nullable s, hp, hs => by
    obtain ⟨b, ty, h⟩ := Schema.Plain.disagrees s hp hs
    exact ⟨b, ty, h.nullable⟩
  | .boolean, _, hs | .numeric _, _, hs | .float _, _, hs | .string _, _, hs | .void, _, hs
  | .noArguments, _, hs => absurd trivial hs
  | .wrapper .., hp, _ => hp.elim

/-- The byte path and the stream path agree on what they write. On accepted bytes they agree for
scalar schemas with a value, and for all schemas with one if the bytes hold no type from 0x19 to
0x1f; every other schema without a conversion around it has accepted bytes on which they do not. -/
theorem paths_agree (s : Schema) :
    (∀ value, (s.encodeInternal value).toOption = (s.encodeTlv value >>= encode).toOption) ∧
    (¬ s.IsVoid → ∀ b stream, decode b = .ok stream → s.Scalar ∨ ReservedFree b →
      (s.decodeInternal b).toOption = (s.decodeTlvWith {} stream).toOption) ∧
    (s.Plain → s.IsVoid ∨ ¬ s.Scalar → ∃ b stream, decode b = .ok stream ∧
      (s.decodeInternal b).toOption ≠ (s.decodeTlvWith {} stream).toOption) := by
  refine ⟨encodeInternal_eq_encodeTlv s, fun hv b stream hb hs => ?_, fun hp hs => ?_⟩
  · rw [decodeTlvWith_eq hv]
    rcases hs with hs | ⟨ty, r, hy, hn⟩
    · exact hs.decode_eq hb
    · have hd : AnySchema.decode b = .ok (ty.withTag none).stream := by
        obtain ⟨r₁, ht, hv⟩ := hy
        have hv := anyValue_of_yields byteArray_progresses hv hn
        have ht : TlvCodec.readTagType (.of b) = _ := ht
        simp only [decode, ht, ok_bind, hv]
        rfl
      obtain rfl : (ty.withTag none).stream = stream := Except.ok.inj (hd.symm.trans hb)
      rw [decodeInternal_of_yields hy hn s]
  · by_cases hv : s.IsVoid
    · -- a null: 14
      refine ⟨[0x14], _, rfl, ?_⟩
      cases s <;> first | exact (Option.some_ne_none _).symm | exact False.elim hv
    · obtain ⟨b, stream, h⟩ := Schema.Plain.disagrees s hp (hs.resolve_left hv)
      refine ⟨b, stream, h.accepted, fun he => h.refused ?_⟩
      rw [he, decodeTlvWith_eq hv]

theorem paths_agree_structure : ReservedFree [0x15, 0x24, 0x01, 0x2a, 0x18] ∧
    ((tlvObject [tlvOptionalField "a" 1 (.numeric tlvUInt8)]).decodeInternal
        [0x15, 0x24, 0x01, 0x2a, 0x18]).toOption =
      ((tlvObject [tlvOptionalField "a" 1 (.numeric tlvUInt8)]).decodeTlvWith {}
        [⟨none, .struct, none⟩, ⟨some ⟨none, some 1⟩, .unsignedInt .oneByte, some (.int 42)⟩,
          ⟨none, .endOfContainer, none⟩]).toOption := by
  have hfree : ReservedFree [0x15, 0x24, 0x01, 0x2a, 0x18] := by
    refine ⟨.node none .struct
      [.leaf ⟨some ⟨none, some 1⟩, .unsignedInt .oneByte, some (.int 42)⟩] none, ⟨5, []⟩,
      ⟨_, rfl, ⟨4, [0x18]⟩, ⟨_, _, by decide, rfl, rfl, rfl⟩, rfl⟩, ?_⟩
    intro e he
    simp only [stream, streams, mem_cons, mem_append, not_mem_nil, or_false] at he
    rcases he with rfl | rfl | rfl <;> exact id
  exact ⟨hfree, (paths_agree _).2.1 id _ _ rfl (.inr hfree)⟩

/-- An element of type 0x19 for an optional field: the byte reader finds a value that is no
number, and in the stream there is no such element. -/
theorem reservedType_dropped : decode [0x15, 0x39, 0x01, 0x18] =
      .ok [⟨none, .struct, none⟩, ⟨none, .endOfContainer, none⟩] ∧
    ((tlvObject [tlvOptionalField "a" 1 (.numeric tlvUInt8)]).decodeInternal
      [0x15, 0x39, 0x01, 0x18]).toOption = none ∧
    (tlvObject [tlvOptionalField "a" 1 (.numeric tlvUInt8)]).decodeTlvWith {}
      [⟨none, .struct, none⟩, ⟨none, .endOfContainer, none⟩] = .ok (.object []) :=
  ⟨rfl, rfl, rfl⟩

end MatterJs.Tlv
