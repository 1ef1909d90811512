import MatterJs.Tlv.RoundTrip
import MatterJs.Tlv.SchemaTree

/-!
# Writing bytes and writing streams

A schema writes the same bytes directly and through a stream of elements. The
stream writer accepts what the byte writer refuses, and is refused when the
stream is written.
-/
namespace MatterJs.Tlv

open List Option AnySchema

variable {fB gB : DataWriter → Except TlvError DataWriter}
  {fA gA : TlvStream → Except TlvError TlvStream}

/-- Both ways of writing fail, or the stream gets elements that are written as the bytes. -/
def Agrees (fB : DataWriter → Except TlvError DataWriter)
    (fA : TlvStream → Except TlvError TlvStream) : Prop :=
  ∃ x : Option TlvStream, (∀ acc, (fA acc).toOption = x.map (fun es => acc ++ es)) ∧
    ∀ w, (fB w).toOption = x.bind (fun es => (writeStream es w).toOption)

theorem toOption_bind {α β : Type} (x : Except TlvError α) (f : α → Except TlvError β) :
    (x >>= f).toOption = x.toOption.bind (fun a => (f a).toOption) := by
  cases x <;> rfl

theorem writeStream_append (s s₂ : TlvStream) (w : DataWriter) :
    writeStream (s ++ s₂) w = writeStream s w >>= writeStream s₂ := by
  simp only [writeStream, foldlM_append]
  rfl

theorem Agrees.bind (hf : Agrees fB fA) (hg : Agrees gB gA) :
    Agrees (fun w => fB w >>= gB) (fun a => fA a >>= gA) := by
  obtain ⟨x, hxA, hxB⟩ := hf
  obtain ⟨y, hyA, hyB⟩ := hg
  refine ⟨x.bind (fun e => y.map (fun es' => e ++ es')), ?_, ?_⟩
  · intro a
    rw [toOption_bind, hxA]
    cases x with
    | none => rfl
    | some e =>
      simp only [map_some, bind_some, hyA]
      cases y with
      | none => rfl
      | some es' => simp [append_assoc]
  · intro w
    rw [toOption_bind, hxB]
    cases x with
    | none => rfl
    | some e =>
      cases y with
      | none =>
        simp only [bind_some, hyB, bind_none, map_none]
        cases (writeStream e w).toOption <;> rfl
      | some es' =>
        simp [hyB, writeStream_append, toOption_bind]

theorem Agrees.error (e : TlvError) : Agrees (fun _ => .error e) (fun _ => .error e) :=
  ⟨none, fun _ => rfl, fun _ => rfl⟩

theorem Agrees.skip : Agrees (fun w => .ok w) (fun a => .ok a) :=
  ⟨some [], fun a => by simp [Except.toOption], fun _ => rfl⟩

theorem Agrees.foldlM {α : Type} {hB : DataWriter → α → Except TlvError DataWriter}
    {hA : TlvStream → α → Except TlvError TlvStream} (as : List α)
    (h : ∀ a ∈ as, Agrees (fun w => hB w a) (fun acc => hA acc a)) :
    Agrees (fun w => as.foldlM hB w) (fun acc => as.foldlM hA acc) := by
  induction as with
  | nil => exact Agrees.skip
  | cons a as ih =>
    exact (h a (mem_cons_self ..)).bind (ih (fun a' hm => h a' (mem_cons_of_mem _ hm)))

/-- The types that are written without a value. -/
def TlvTypeLength.TagOnly : TlvTypeLength → Prop
  | .null | .boolean _ | .array | .struct | .list | .endOfContainer => True
  | _ => False

variable {t : TlvTypeLength}

theorem agrees_writeTag (h : t.TagOnly) (tag : Option TlvTag) :
    Agrees (fun w => tlvByteArrayWriter.writeTag w t tag)
      (fun a => tlvArrayWriter.writeTag a t tag) := by
  refine ⟨some [⟨tag, t, none⟩], fun _ => rfl, fun w => ?_⟩
  have hw : writeStream [⟨tag, t, none⟩] w = TlvCodec.writeTag w t tag := by
    cases t <;> simp_all [writeStream, encodeElement, tlvByteArrayWriter, TlvTypeLength.TagOnly]
  rw [bind_some, hw]
  rfl

theorem setLastValue_append (c : TlvStream) (e : TlvElement) (v : Option TlvValue) :
    setLastValue v (c ++ [e]) = .ok (c ++ [{ e with value := v }]) := by
  induction c with
  | nil => rfl
  | cons a c ih =>
    obtain ⟨b, bs, hb⟩ : ∃ b bs, c ++ [e] = b :: bs := by
      cases c with
      | nil => exact ⟨e, [], rfl⟩
      | cons b c => exact ⟨b, c ++ [e], rfl⟩
    rw [cons_append, hb, setLastValue, ← hb, ih]
    rfl

theorem agrees_writeElement (h : t.HasValue) (tag : Option TlvTag) (va : Option TlvValue) :
    Agrees (fun w => writeElement tlvByteArrayWriter w t tag va)
      (fun a => writeElement tlvArrayWriter a t tag va) := by
  refine ⟨some [⟨tag, t, va⟩], fun a => ?_, fun w => ?_⟩
  · have : writeElement tlvArrayWriter a t tag va = .ok (a ++ [⟨tag, t, va⟩]) :=
      setLastValue_append a ⟨tag, t, none⟩ va
    simp only [this]
    rfl
  · have hw : writeStream [⟨tag, t, va⟩] w = writeElement tlvByteArrayWriter w t tag va := by
      cases t <;> simp_all [writeStream, encodeElement, writeElement, TlvTypeLength.HasValue]
    rw [bind_some, hw]

theorem agrees_encodeElement (tag : Option TlvTag) (e : TlvElement) :
    Agrees (fun w => encodeElement tlvByteArrayWriter w tag e)
      (fun a => encodeElement tlvArrayWriter a tag e) := by
  obtain ⟨tag', t, v⟩ := e
  cases t with
  | null | boolean b | array | struct | list | endOfContainer =>
      exact agrees_writeTag (by trivial) tag
  | unsignedInt le | signedInt le | float le | utf8String le
  | byteString le => exact agrees_writeElement (by trivial) tag v
  | reserved code => exact Agrees.skip

theorem agrees_any (s : TlvStream) (tag : Option TlvTag) :
    Agrees (fun w => encodeTlvInternal tlvByteArrayWriter w s tag)
      (fun a => encodeTlvInternal tlvArrayWriter a s tag) := by
  cases s with
  | nil => exact Agrees.skip
  | cons e es =>
    exact (agrees_encodeElement _ e).bind
      (Agrees.foldlM es (fun e' _ => agrees_encodeElement e'.tag e'))

/-- Two encoders of one field that agree on every value. -/
def FieldAgrees (f : FieldEncoder DataWriter) (g : FieldEncoder TlvStream) : Prop :=
  f.name = g.name ∧ ∀ value, Agrees (f.encode value) (g.encode value)

theorem agrees_encodeEntryToTlv {s : TlvEncodingOptions} {name : String} {id : Nat} {o r : Bool}
    {hB : Value → DataWriter → Except TlvError DataWriter} {hA : Value → TlvStream →
    Except TlvError TlvStream} (h : ∀ v, Agrees (hB v) (hA v)) (v : Value) :
    Agrees (encodeEntryToTlv s name id o r hB v) (encodeEntryToTlv s name id o r hA v) := by
  unfold encodeEntryToTlv
  split_ifs
  · exact Agrees.error _
  · exact Agrees.skip
  · cases v with
    | undefined => exact Agrees.skip
    | array l => exact Agrees.foldlM l (fun e _ => h e)
    | _ => exact Agrees.error _
  · cases v with
    | undefined => exact Agrees.skip
    | _ => exact h _
  · cases v with
    | undefined => exact Agrees.error _
    | array l => exact Agrees.foldlM l (fun e _ => h e)
    | _ => exact Agrees.error _
  · cases v with
    | undefined => exact Agrees.error _
    | _ => exact h _

theorem agrees_encodeStructure {fs : List (FieldEncoder DataWriter)}
    {s : List (FieldEncoder TlvStream)} (h : List.Forall₂ FieldAgrees fs s)
    (ps : List (String × Value)) :
    Agrees (fun w => encodeStructure fs ps w) (fun a => encodeStructure s ps a) := by
  unfold encodeStructure
  induction h with
  | nil => exact Agrees.skip
  | cons hf _ ih =>
    simp only [foldlM_cons, hf.1]
    exact (hf.2 _).bind ih

section Tables

variable {fs : List (FieldEncoder DataWriter)} {s : List (FieldEncoder TlvStream)}

variable (h : List.Forall₂ FieldAgrees fs s)
include h

theorem FieldAgrees.any_name (name : String) : fs.any (·.name = name) = s.any (·.name = name) := by
  induction h with
  | nil => rfl
  | cons hf _ ih => simp [hf.1, ih]

theorem FieldAgrees.find (name : String) : Option.Rel FieldAgrees (fs.find? (·.name = name))
      (s.find? (·.name = name)) := by
  induction h with
  | nil => exact .none
  | @cons f g fs s hf _ ih =>
    simp only [find?_cons, hf.1]
    by_cases hn : g.name = name
    · simp only [hn]
      exact .some hf
    · simp only [hn]
      exact ih

variable (ps : List (String × Value))

theorem FieldAgrees.given : List.Forall₂ FieldAgrees
      (ps.filterMap (fun p => fs.find? (·.name = p.1)))
      (ps.filterMap (fun p => s.find? (·.name = p.1))) := by
  induction ps with
  | nil => exact .nil
  | cons p ps ih =>
    simp only [filterMap_cons]
    generalize hf : fs.find? (fun l => decide (l.name = p.1)) = f
    generalize hg : s.find? (fun l => decide (l.name = p.1)) = g
    have hp : Option.Rel FieldAgrees f g := hf ▸ hg ▸ FieldAgrees.find h p.1
    cases hp with
    | none => exact ih
    | some hfg => exact .cons hfg ih

theorem FieldAgrees.others : List.Forall₂ FieldAgrees
      (fs.filter (fun l => (ps.lookup l.name).isNone))
      (s.filter (fun l => (ps.lookup l.name).isNone)) := by
  induction h with
  | nil => exact .nil
  | @cons f g fs s hf _ ih =>
    simp only [filter_cons, hf.1]
    split_ifs
    · exact .cons hf ih
    · exact ih

theorem agrees_encodeList (d : Bool) (ps : List (String × Value)) :
    Agrees (fun w => encodeList d fs ps w) (fun acc => encodeList d s ps acc) := by
  simp only [encodeList, FieldAgrees.any_name h]
  cases ps.find? (fun p => ¬ s.any (·.name = p.1)) with
  | some p => exact Agrees.error _
  | none =>
    cases d with
    | true =>
      have ha := rel_append (FieldAgrees.given h ps) (FieldAgrees.others h ps)
      exact agrees_encodeStructure ha ps
    | false => exact agrees_encodeStructure h ps

end Tables

theorem hasValue_numeric (n : NumericSchema) (l : TlvLength) : (n.typeLength l).HasValue := by
  unfold NumericSchema.typeLength
  cases n.type <;> trivial

theorem hasValue_string (s : StringSchema) (l : TlvLength) : (s.typeLength l).HasValue := by
  unfold StringSchema.typeLength
  cases s.type <;> trivial

mutual

/-- A schema writes bytes and elements alike. -/
theorem agrees_encode (o : TlvEncodingOptions) : (s : Schema) → (v : Value) →
    (tag : Option TlvTag) → Agrees (fun w => s.encodeTlvInternal tlvByteArrayWriter o v tag w)
      (fun a => s.encodeTlvInternal tlvArrayWriter o v tag a)
  | .boolean, v, tag => by
    cases v with
    | boolean b => exact agrees_writeTag (by trivial) tag
    | _ => exact Agrees.error _
  | .numeric n, v, tag => by
    simp only [Schema.encodeTlvInternal]
    exact agrees_writeElement (hasValue_numeric n _) tag _
  | .float f, v, tag => agrees_writeElement (by trivial) tag _
  | .string s, v, tag => by
    simp only [Schema.encodeTlvInternal]
    cases StringSchema.statedLength v with
    | none => exact Agrees.error _
    | some length => exact agrees_writeElement (hasValue_string s _) tag _
  | .nullable s, v, tag => by
    have ih := agrees_encode o s v tag
    cases v with
    | null => exact agrees_writeTag (by trivial) tag
    | _ => exact ih
  | .array s _ _, v, tag => by
    have ih := agrees_encode o s
    cases v with
    | array elements =>
      exact (agrees_writeTag (by trivial) tag).bind
        ((Agrees.foldlM elements (fun l _ => ih l none)).bind (agrees_writeTag (by trivial) none))
    | _ => exact Agrees.error _
  | .object settings fields, v, tag => by
    have ih := fieldEncoders_agree o fields
    cases v with
    | object ps =>
      obtain ⟨isList, _, preserveDataOrdering⟩ := settings
      cases isList with
      | true =>
        exact (agrees_writeTag (by trivial) tag).bind
          ((agrees_encodeList ih _ ps).bind (agrees_writeTag (by trivial) none))
      | false =>
        exact (agrees_writeTag (by trivial) tag).bind
          ((agrees_encodeStructure ih ps).bind (agrees_writeTag (by trivial) none))
    | _ => exact Agrees.error _
  | .any, v, tag => by
    cases v with
    | stream s => exact agrees_any s tag
    | _ => exact Agrees.error _
  | .void, _, _ => Agrees.skip
  | .noArguments, v, tag => by
    cases v with
    | undefined =>
      exact (agrees_writeTag (by trivial) tag).bind (agrees_writeTag (by trivial) none)
    | _ => exact Agrees.error _
  | .wrapper s wrap _, v, tag => by
    simp only [Schema.encodeTlvInternal]
    cases wrap v with
    | error e => exact Agrees.error e
    | ok v => exact agrees_encode o s v tag

theorem fieldEncoders_agree (o : TlvEncodingOptions) : (f : List (Field Schema)) →
    List.Forall₂ FieldAgrees (fieldEncoders tlvByteArrayWriter o f)
      (fieldEncoders tlvArrayWriter o f)
  | [] => .nil
  | ⟨_, _, schema, _, _, _, _, _⟩ :: f =>
    .cons ⟨rfl, agrees_encodeEntryToTlv (fun v => agrees_encode o schema v _)⟩
      (fieldEncoders_agree o f)

end

/-- The bytes of a value are those of its elements. -/
theorem encodeInternal_eq_encodeTlv (s : Schema) (v : Value) :
    (s.encodeInternal v).toOption = (s.encodeTlv v >>= encode).toOption := by
  obtain ⟨x, hA, hB⟩ := agrees_encode {} s v none
  simp only [Schema.encodeInternal, Schema.encodeTlv, toOption_bind, hB, hA []]
  cases x with
  | none => rfl
  | some e => simp only [bind_some, map_some, nil_append, anyEncode_eq, toOption_bind]

end MatterJs.Tlv
