import MatterJs.Tlv.Normal
import MatterJs.Tlv.ReaderPaths

/-!
# Values through their schema

A valid value is encoded to bytes that are read as a tree, and the schema makes
its normal value of this tree.
-/
namespace MatterJs.Tlv

open TlvCodec TextCodec List Field NumericSchema Option TlvLength Prod

open Ieee754 (roundInteger roundInteger_of_lt)

/-- No tag, or a context tag of one byte. -/
def ShortTag (tag : Option TlvTag) : Prop := tag = none ∨ ∃ id < 2 ^ 8, tag = some ⟨none, some id⟩

variable (write : DataWriter → Except TlvError DataWriter)

/-- The writer emits bytes that are read as this tree. -/
def WritesTree (t : Tree) : Prop :=
  ∃ bs, Writes write bs ∧ NoReserved t.stream ∧
    ∀ offset rest, Yields tlvByteArrayReader t ⟨offset, bs ++ rest⟩ ⟨offset + bs.length, rest⟩

def WritesTrees (ts : List Tree) : Prop :=
  ∃ bs, Writes write bs ∧ NoReserved (Tree.streams ts) ∧
    ∀ offset rest, YieldsAll tlvByteArrayReader ts ⟨offset, bs ++ rest⟩ ⟨offset + bs.length, rest⟩

section Trees

variable {f g : DataWriter → Except TlvError DataWriter} {t : Tree} {ts ts' : List Tree}
  {tag : Option TlvTag} {tl : TlvTypeLength}

theorem shortTag_roundTrip (h : ShortTag tag) (tl : TlvTypeLength) :
    ∃ bs, Writes (fun w => writeTag w tl tag) bs ∧ ReadsAs readTagType bs (tag, tl) := by
  have ha : TagAccepted tag ∧ ¬ IsFullyQualified64 tag ∧ TagFits tag ∧ normalTag tag = tag := by
    rcases h with rfl | ⟨id, hi, rfl⟩
    · exact ⟨trivial, fun h => h, trivial, rfl⟩
    · exact ⟨trivial, fun h => h, hi, rfl⟩
  obtain ⟨ha, hr, hf, hn⟩ := ha
  obtain ⟨bs, hb⟩ := tag_roundTrip ha tl
  obtain ⟨tag', ht, hd⟩ := hb.reads hr
  rw [hn] at ht
  rw [ht.mpr hf] at hd
  exact ⟨bs, hb.writes, hd⟩

theorem writesTree_tag (h : ShortTag tag) {a : Option TlvValue} (hn : ¬ tl.IsReserved)
    (hv : ∀ r, ReadsValue tlvByteArrayReader tl a r r) :
    WritesTree (fun w => tlvByteArrayWriter.writeTag w tl tag) (.leaf ⟨tag, tl, a⟩) := by
  obtain ⟨bs, hw, hr⟩ := shortTag_roundTrip h tl
  refine ⟨bs, hw, by simpa [NoReserved, Tree.stream] using hn, fun off rest => ?_⟩
  exact ⟨_, hr off rest, hv _⟩

theorem writesTree_element (h : ShortTag tag) {a : TlvValue}
    (hf : ValueFits tl a) (hb : a.readBack = a) :
    WritesTree (fun w => writeElement tlvByteArrayWriter w tl tag (some a))
      (.leaf ⟨tag, tl, some a⟩) := by
  obtain ⟨tb, ht, htr⟩ := shortTag_roundTrip h tl
  obtain ⟨b, hw, hv⟩ := value_roundTrip hf
  rw [hb] at hv
  refine ⟨tb ++ b, ht.bind hw, ?_, fun off rest => ?_⟩
  · simp only [NoReserved, Tree.stream, mem_singleton, forall_eq]
    cases tl <;> first | exact fun h => h | cases hf
  · refine ⟨_, by rw [append_assoc]; exact htr off (b ++ rest), ?_⟩
    have hd := (hv.map some) (off + tb.length) rest
    rw [Nat.add_assoc, ← length_append] at hd
    cases tl <;> first | exact hd | cases hf

theorem WritesTrees.skip : WritesTrees (fun w => .ok w) [] :=
  ⟨[], fun w => by simp, fun _ h => absurd h not_mem_nil, fun _ _ => rfl⟩

theorem WritesTrees.append (hf : WritesTrees f ts) (hg : WritesTrees g ts') :
    WritesTrees (fun w => f w >>= g) (ts ++ ts') := by
  obtain ⟨bs, hw, hn, hy⟩ := hf
  obtain ⟨bs', hw', hn', hy'⟩ := hg
  refine ⟨bs ++ bs', hw.bind hw', ?_, fun off rest => ?_⟩
  · rw [Tree.streams_append]
    exact NoReserved.append.mpr ⟨hn, hn'⟩
  · rw [append_assoc, length_append, ← Nat.add_assoc]
    exact (hy off (bs' ++ rest)).append (hy' (off + bs.length) rest)

theorem WritesTree.single (h : WritesTree f t) (he : t.typeLength ≠ .endOfContainer) :
    WritesTrees f [t] := by
  obtain ⟨bs, hw, hn, hy⟩ := h
  refine ⟨bs, hw, by simpa [Tree.streams] using hn, fun off rest => ?_⟩
  obtain ⟨r, ht, hv⟩ := hy off rest
  exact ⟨r, _, he, ht, hv, rfl⟩

theorem WritesTrees.node (h : ShortTag tag) (kind : ContainerKind) (hf : WritesTrees f ts) :
    WritesTree (fun w => tlvByteArrayWriter.writeTag w kind.typeLength tag >>= fun w =>
        f w >>= fun w => tlvByteArrayWriter.writeTag w .endOfContainer none)
      (.node tag kind ts none) := by
  obtain ⟨b, ht, htr⟩ := shortTag_roundTrip h kind.typeLength
  obtain ⟨eb, hew, her⟩ := shortTag_roundTrip (.inl rfl) .endOfContainer
  obtain ⟨bs, hw, hn, hy⟩ := hf
  refine ⟨b ++ (bs ++ eb), ht.bind (hw.bind hew), ?_, fun off rest => ?_⟩
  · intro e he
    simp only [Tree.stream, mem_cons, mem_append, not_mem_nil, or_false] at he
    rcases he with rfl | he | rfl
    · cases kind <;> exact id
    · exact hn e he
    · exact id
  · simp only [append_assoc]
    refine ⟨_, htr off _, _, hy _ _, ?_⟩
    have := her (off + b.length + bs.length) rest
    simp only [length_append, ← Nat.add_assoc]
    exact this

end Trees

/-- Under every tag the value is written as a tree of which its normal value is made. -/
def Passes (s : Schema) (value : Value) : Prop :=
  ∀ tag, ShortTag tag → ∃ t : Tree, t.tag = tag ∧ t.typeLength ≠ .endOfContainer ∧
    (value ≠ .null → t.typeLength ≠ .null) ∧
    WritesTree (fun w => s.encodeTlvInternal tlvByteArrayWriter {} value tag w) t ∧
    s.decodeTree false t = .ok (s.normalise value)

section Numbers

/-- The range of an integer schema is one that its lengths cover. -/
structure InRange (n : NumericSchema) : Prop where
  signed : n.type = .signedInt → -2 ^ 63 ≤ n.min ∧ n.max < 2 ^ 63
  unsigned : n.type = .unsignedInt → 0 ≤ n.min ∧ n.max < 2 ^ 64
  exact : n.isNumber → -2 ^ 53 < n.min ∧ n.max < 2 ^ 53

theorem le_min_make (type : IntegerType) (i : Bool) (o hi m : Int) (max : Option Int) :
    m ≤ (NumericSchema.make type i o hi (some m) max).min := by
  unfold NumericSchema.make NumericSchema.min
  by_cases h : o < m
  · simp [Option.filter, h]
  · simp only [Option.filter, h, decide_false, Bool.false_eq_true, if_false, Option.getD_none]
    omega

theorem max_make_le (type : IntegerType) (i : Bool) (o hi m : Int) (min : Option Int) :
    (NumericSchema.make type i o hi min (some m)).max ≤ m := by
  unfold NumericSchema.make NumericSchema.max
  by_cases h : m < hi
  · simp [Option.filter, h]
  · simp only [Option.filter, h, decide_false, Bool.false_eq_true, if_false, Option.getD_none]
    omega

theorem bound_range (n : NumericSchema) (min max : Option Int) :
    n.min ≤ (n.bound min max).min ∧ (n.bound min max).max ≤ n.max := by
  constructor
  · refine le_trans ?_ (le_min_make ..)
    cases min with
    | none => exact le_refl _
    | some min =>
      simp only [map_some, getD_some]
      split_ifs <;> omega
  · refine le_trans (max_make_le ..) ?_
    cases max with
    | none => exact le_refl _
    | some max =>
      simp only [map_some, getD_some]
      split_ifs <;> omega

variable {n : NumericSchema}

theorem IsInteger.inRange (h : IsInteger n) : InRange n := by
  induction h with
  | base h =>
    simp only [mem_cons, not_mem_nil, or_false] at h
    rcases h with rfl | rfl | rfl | rfl | rfl | rfl | rfl | rfl | rfl <;>
      exact ⟨by decide, by decide, by decide⟩
  | @bound n h min max ih =>
    obtain ⟨hm, ha⟩ := bound_range n min max
    constructor
    · intro ht
      have := ih.signed ht
      omega
    · intro ht
      have := ih.unsigned ht
      omega
    · intro hn
      have := ih.exact hn
      omega

/-- The length chosen for a number covers it. -/
theorem valueFits_numeric (h : InRange n) {v : Int} (hm : n.min ≤ v)
    (ha : v ≤ n.max) : ValueFits (n.typeLength (n.lengthProvider v)) (.int v) := by
  unfold typeLength lengthProvider
  cases ht : n.type with
  | unsignedInt =>
    have := h.unsigned ht
    simp only [getUIntTlvLength]
    split_ifs <;> simp [ValueFits, bytes] <;> omega
  | signedInt =>
    have := h.signed ht
    simp only [getIntTlvLength]
    split_ifs <;> simp only [ValueFits, bytes] <;> omega

theorem passes_numeric (h : IsInteger n) {v : Int} (hv : n.validate (.int v) = .ok ()) :
    Passes (.numeric n) (.int v) := by
  intro tag ha
  simp only [validate, validateBoundaries] at hv
  have hr := h.inRange
  have hb : n.min ≤ v ∧ v ≤ n.max := by
    split_ifs at hv
    omega
  have hf := valueFits_numeric hr hb.1 hb.2
  refine ⟨_, rfl, ?_, ?_, writesTree_element ha hf rfl, ?_⟩
  · unfold typeLength
    cases n.type <;> simp [Tree.typeLength]
  · unfold typeLength
    cases n.type <;> simp [Tree.typeLength]
  · have hrn : n.isNumber → roundInteger v = v := by
      intro hn
      have := hr.exact hn
      exact roundInteger_of_lt (by omega)
    unfold typeLength
    cases ht : n.type <;> cases hn : n.isNumber <;>
      simp_all [Schema.decodeTree, Schema.normalise, checkType, Tree.typeLength,
        finish, Tree.value, Value.ofPrimitive, pure, Except.pure]

end Numbers

section Strings

theorem lengthFits_stated {n : Nat} (h : n < 2 ^ 53) : LengthFits (getUIntTlvLength n) n := by
  refine ⟨?_, h⟩
  simp only [getUIntTlvLength]
  split_ifs <;> simp [bytes] <;> omega

variable {s : StringSchema}

/-- A valid text has no separator. -/
theorem validate_text (hs : s.type = .utf8String) {te : List UInt16}
    (hv : s.validate (.string te) = .ok ()) : StringSchema.informationSeparator1 ∉ te := by
  intro hm
  simp only [StringSchema.validate, hs, if_pos hm] at hv
  cases hv

theorem finish_text (hs : s.type = .utf8String) {te : List UInt16}
    (h : StringSchema.informationSeparator1 ∉ te) :
    s.finish (some (.string te)) = .ok (.string te) := by
  simp [StringSchema.finish, hs, if_neg h]

theorem passes_string {va : Value} (hv : s.validate va = .ok ())
    (ht : OfType (.string s) va) (hf : FitsWire (.string s) va) : Passes (.string s) va := by
  intro tag ha
  obtain ⟨type, m, a⟩ := s
  cases type with
  | byteString =>
    cases va with
    | bytes b =>
      exact ⟨_, rfl, by simp [Tree.typeLength, StringSchema.typeLength],
        by simp [Tree.typeLength, StringSchema.typeLength],
        writesTree_element ha (lengthFits_stated ht) rfl, rfl⟩
    | _ => cases hv
  | utf8String =>
    cases va with
    | string te =>
      have hb : (TlvValue.string te).readBack = .string te :=
        congrArg TlvValue.string ((decode_encode_iff te).mpr ht)
      have hs := validate_text rfl hv
      refine ⟨_, rfl, by simp [Tree.typeLength, StringSchema.typeLength],
        by simp [Tree.typeLength, StringSchema.typeLength], writesTree_element ha hf hb, ?_⟩
      exact finish_text (s := ⟨.utf8String, m, a⟩) rfl hs
    | _ => cases hv

end Strings

theorem passes_boolean {va : Value} (hv : Schema.boolean.validate va = .ok ()) :
    Passes .boolean va := by
  intro tag ht
  cases va with
  | boolean b =>
    exact ⟨.leaf ⟨tag, .boolean b, some (.boolean b)⟩, rfl, by simp [Tree.typeLength],
      by simp [Tree.typeLength], writesTree_tag ht id (fun r => ⟨rfl, rfl, rfl⟩), rfl⟩
  | _ => cases hv

theorem passes_nullable {s : Schema} {va : Value} (h : va ≠ .null → Passes s va) :
    Passes (.nullable s) va := by
  intro tag ha
  by_cases hn : va = .null
  · subst hn
    exact ⟨.leaf ⟨tag, .null, some .null⟩, rfl, by simp [Tree.typeLength], fun h => absurd rfl h,
      writesTree_tag ha id (fun r => ⟨rfl, rfl⟩), rfl⟩
  · obtain ⟨t, ht, he, hy, hw, hd⟩ := h hn tag ha
    refine ⟨t, ht, he, hy, ?_, ?_⟩
    · have : (fun w => (Schema.nullable s).encodeTlvInternal tlvByteArrayWriter {} va tag w) =
          fun w => s.encodeTlvInternal tlvByteArrayWriter {} va tag w := by
        cases va <;> first | rfl | exact absurd rfl hn
      rw [this]
      exact hw
    · have hne := hy hn
      rw [normalise_nullable s hn]
      simp only [Schema.decodeTree, hd]
      cases hl : t.typeLength <;> rfl

section Arrays

variable {s : Schema}

theorem passes_elements {es : List Value} (h : ∀ el ∈ es, Passes s el) :
    ∃ ts, WritesTrees (fun w => es.foldlM
        (fun w el => s.encodeTlvInternal tlvByteArrayWriter {} el none w) w) ts ∧
      ∀ acc, decodeTreeArray (fun t => s.decodeTree false t) ts acc =
        .ok (acc ++ es.map (fun el => s.normalise el)) := by
  induction es with
  | nil => exact ⟨[], WritesTrees.skip, fun acc => by simp [decodeTreeArray]⟩
  | cons el es ih =>
    obtain ⟨ts, hw, hd⟩ := ih (fun e hm => h e (mem_cons_of_mem _ hm))
    obtain ⟨t, ht, he, -, hwt, hdt⟩ := h el (mem_cons_self ..) none (.inl rfl)
    refine ⟨t :: ts, ?_, fun acc => ?_⟩
    · simp only [foldlM_cons]
      exact (hwt.single he).append hw
    · simp [decodeTreeArray, ht, hdt, hd]

theorem passes_array {ml m : Nat} {e : List Value} (h : ∀ el ∈ e, Passes s el) :
    Passes (.array s ml m) (.array e) := by
  intro tag ht
  obtain ⟨ts, hw, hd⟩ := passes_elements h
  refine ⟨.node tag .array ts none, rfl, by simp [Tree.typeLength, ContainerKind.typeLength],
    by simp [Tree.typeLength, ContainerKind.typeLength], hw.node ht .array, ?_⟩
  simp [Schema.decodeTree, hd, Schema.normalise]

end Arrays

section Objects

variable {fs : List (Field Schema)} {ps : List (String × Value)} (i : Field Schema)

/-- The field that writes an entry. -/
def Field.encoder : FieldEncoder DataWriter :=
  ⟨i.name, encodeEntryToTlv {} i.name i.id i.optional i.repeated
    (fun value w => i.schema.encodeTlvInternal tlvByteArrayWriter {} value
      (some ⟨none, some i.id⟩) w)⟩

/-- The field that reads an entry. -/
def Field.decoder : FieldDecoder (Tree → Except TlvError Value) :=
  ⟨i.name, i.id, i.repeated, fun t => i.schema.decodeTree false t⟩

/-- The field that is left of an entry. -/
def Field.normaliser : String × (Value → Option Value) :=
  (i.name, normaliseEntry i.repeated (fun value => i.schema.normalise value))

theorem fieldEncoders_eq (fs : List (Field Schema)) :
    fieldEncoders tlvByteArrayWriter {} fs = fs.map Field.encoder := by
  induction fs with
  | nil => rfl
  | cons i fs ih => rw [fieldEncoders, ih, map_cons]; rfl

theorem fieldTreeDecoders_eq (fs : List (Field Schema)) :
    fieldTreeDecoders false fs = fs.map Field.decoder := by
  induction fs with
  | nil => rfl
  | cons i fs ih => rw [fieldTreeDecoders, ih, map_cons]; rfl

theorem fieldById_eq_none {id : Nat} (h : id ∉ fs.map Field.id) :
    fieldById (fs.map Field.decoder) id = none := by
  induction fs with
  | nil => rfl
  | cons head fs ih =>
    rw [map_cons, mem_cons, not_or] at h
    rw [map_cons, fieldById, ih h.2]
    exact if_neg (Ne.symm h.1)

variable {fl : Field Schema} {v : Value}

/-- With distinct ids each field is found by its own. -/
theorem fieldById_decoder (hi : (fs.map Field.id).Nodup)
    (hm : fl ∈ fs) : fieldById (fs.map Field.decoder) fl.id = some fl.decoder := by
  induction fs with
  | nil => cases hm
  | cons head fs ih =>
    rw [map_cons, nodup_cons] at hi
    rw [map_cons, fieldById]
    rcases mem_cons.mp hm with rfl | hm
    · simp [fieldById_eq_none hi.1, Field.decoder]
    · simp [ih hi.2 hm]

/-- The entry of a field is written as elements that set its property. -/
def EntryPasses (i : Field Schema) (value : Value) : Prop :=
  ∃ ts, WritesTrees (i.encoder.encode value) ts ∧
    ∀ allow table rest acc, fieldById table i.id = some i.decoder →
      i.name ∉ acc.map fst →
      decodeTreeObject allow table (ts ++ rest) acc = decodeTreeObject allow table rest
        (acc ++ ((i.normaliser.2 value).map (fun value => (i.name, value))).toList)

theorem decodeTreeObject_cons {a : Bool} {b : List (FieldDecoder (Tree → Except TlvError Value))}
    (hf : fieldById b fl.id = some fl.decoder) {t : Tree} (ht : t.tag = some ⟨none, some fl.id⟩)
    (hd : fl.schema.decodeTree false t = .ok v) (ts : List Tree) (acc : List (String × Value)) :
    decodeTreeObject a b (t :: ts) acc =
    decodeTreeObject a b ts (addDecoded acc fl.name fl.repeated v) := by
  simp only [decodeTreeObject, ht, checkObjectTag, bind_some, isSome_none,
    Bool.false_eq_true, false_and, if_false, ok_bind, hf]
  simp [Field.decoder, hd]

variable {acc : List (String × Value)}

theorem addDecoded_new {name : String} (h : name ∉ acc.map fst) (v : Value) :
    addDecoded acc name true v = acc ++ [(name, .array [v])] := by
  simp [addDecoded, getProperty_of_notMem h, setProperty_new h]

theorem addDecoded_more {name : String} (h : name ∉ acc.map fst) (vs : List Value) (v : Value) :
    addDecoded (acc ++ [(name, .array vs)]) name true v = acc ++ [(name, .array (vs ++ [v]))] := by
  simp [addDecoded, getProperty_last h, setProperty_last h]

/-- The elements of a repeated field behind its first one. -/
theorem passes_repeated (he : fl.repeated) (hi : fl.id < 2 ^ 8) {es : List Value}
    (h : ∀ el ∈ es, Passes fl.schema el) : ∃ ts, WritesTrees (fun w => es.foldlM (fun w el =>
        fl.schema.encodeTlvInternal tlvByteArrayWriter {} el (some ⟨none, some fl.id⟩) w) w) ts ∧
      ∀ al b rest acc vs, fieldById b fl.id = some fl.decoder → fl.name ∉ acc.map fst →
        decodeTreeObject al b (ts ++ rest) (acc ++ [(fl.name, .array vs)]) =
          decodeTreeObject al b rest (acc ++ [(fl.name, .array (vs ++
            es.map (fun el => fl.schema.normalise el)))]) := by
  induction es with
  | nil => exact ⟨[], WritesTrees.skip, fun al b rest acc vs _ _ => by simp⟩
  | cons el es ih =>
    obtain ⟨ts, hw, hd⟩ := ih (fun e hm => h e (mem_cons_of_mem _ hm))
    obtain ⟨t, ht, hn, -, hwt, hdt⟩ := h el (mem_cons_self ..) _
      (.inr ⟨fl.id, hi, rfl⟩)
    refine ⟨t :: ts, ?_, fun al b rest acc vs hf hnm => ?_⟩
    · simp only [foldlM_cons]
      exact (hwt.single hn).append hw
    · rw [cons_append, decodeTreeObject_cons hf ht hdt, he, addDecoded_more hnm,
        hd al b rest acc _ hf hnm, map_cons, append_assoc]
      rfl

theorem entryPasses_absent (ho : fl.optional) : EntryPasses fl .undefined := by
  refine ⟨[], ?_, fun a b rest acc _ _ => by simp [Field.normaliser, normaliseEntry]⟩
  have : fl.encoder.encode .undefined = fun w => .ok w := by
    funext w
    simp [Field.encoder, encodeEntryToTlv, ho]
  rw [this]
  exact WritesTrees.skip

theorem entryPasses_single (he : fl.repeated = false)
    (hne : v ≠ .undefined) (hi : fl.id < 2 ^ 8) (h : Passes fl.schema v) : EntryPasses fl v := by
  obtain ⟨t, ht, hn, -, hw, hd⟩ := h _ (.inr ⟨fl.id, hi, rfl⟩)
  refine ⟨[t], ?_, fun a b rest acc hf hm => ?_⟩
  · have : fl.encoder.encode v = fun w => fl.schema.encodeTlvInternal
        tlvByteArrayWriter {} v (some ⟨none, some fl.id⟩) w := by
      funext w
      cases v <;> simp_all [Field.encoder, encodeEntryToTlv]
    rw [this]
    exact hw.single hn
  · have hnr : fl.normaliser.2 v = some (fl.schema.normalise v) := by
      cases v <;> simp_all [Field.normaliser, normaliseEntry]
    rw [cons_append, nil_append, decodeTreeObject_cons hf ht hd, hnr, he,
      addDecoded, if_neg (by simp), setProperty_new hm]
    rfl

theorem entryPasses_repeated {es : List Value} (hp : fl.repeated) (hi : fl.id < 2 ^ 8)
    (h : ∀ el ∈ es, Passes fl.schema el) : EntryPasses fl (.array es) := by
  have he : fl.encoder.encode (.array es) = fun w => es.foldlM
      (fun w el => fl.schema.encodeTlvInternal tlvByteArrayWriter {} el
        (some ⟨none, some fl.id⟩) w) w := by
    funext w
    simp [Field.encoder, encodeEntryToTlv, hp]
  cases es with
  | nil =>
    refine ⟨[], he ▸ WritesTrees.skip, fun a b rest acc _ _ => ?_⟩
    simp [Field.normaliser, normaliseEntry, hp]
  | cons el es =>
    obtain ⟨t, ht, hn, -, hwt, hdt⟩ := h el (mem_cons_self ..) _
      (.inr ⟨fl.id, hi, rfl⟩)
    obtain ⟨ts, hw, hd⟩ := passes_repeated hp hi (fun e hm => h e (mem_cons_of_mem _ hm))
    refine ⟨t :: ts, ?_, fun a b rest acc hf hnm => ?_⟩
    · rw [he]
      exact (hwt.single hn).append hw
    · rw [cons_append, decodeTreeObject_cons hf ht hdt, hp, addDecoded_new hnm,
        hd a b rest acc _ hf hnm]
      simp [Field.normaliser, normaliseEntry, hp]

section
variable (hv : validateField fl.name fl.optional fl.repeated fl.minLength
      fl.maxLength (fun data => fl.schema.validate data) v = .ok ())
include hv

/-- A valid field whose parts pass, passes. -/
theorem entryPasses (hi : v ≠ .undefined → fl.id < 2 ^ 8)
    (h : EverywhereEntry fl.repeated (Passes fl.schema) v) : EntryPasses fl v := by
  cases he : fl.repeated with
  | false =>
    rw [he] at h
    cases v with
    | undefined =>
      refine entryPasses_absent (Bool.eq_true_of_not_eq_false fun ho => ?_)
      simp [validateField, ho] at hv
    | array e => exact entryPasses_single he (by simp) (hi (by simp)) h
    | _ => exact entryPasses_single he (by simp) (hi (by simp)) h
  | true =>
    rw [he] at h hv
    cases v with
    | undefined =>
      refine entryPasses_absent (Bool.eq_true_of_not_eq_false fun ho => ?_)
      simp [validateField, ho] at hv
    | array e => exact entryPasses_repeated he (hi (by simp)) h
    | _ => cases hv

theorem passes_parts (ih : ∀ v, fl.schema.validate v = .ok () → fl.schema.Everywhere OfType v →
      fl.schema.Everywhere FitsWire v → Passes fl.schema v)
    (ht : EverywhereEntry fl.repeated (fun v => fl.schema.Everywhere OfType v) v)
    (hf : EverywhereEntry fl.repeated (fun v => fl.schema.Everywhere FitsWire v) v) :
    EverywhereEntry fl.repeated (Passes fl.schema) v := by
  cases he : fl.repeated with
  | false =>
    rw [he] at hv ht hf
    cases v with
    | undefined => trivial
    | array el => exact ih _ ((validateField_single (by simp)).mp hv) ht hf
    | _ => exact ih _ ((validateField_single (by simp)).mp hv) ht hf
  | true =>
    rw [he] at hv ht hf
    cases v with
    | undefined => trivial
    | array el =>
      have ha := (validateField_array.mp hv).2
      exact fun e hm => ih e (ha _ hm) (ht _ hm) (hf _ hm)
    | _ => cases hv

end

theorem passes_fields (a : Bool) (b : List (FieldDecoder (Tree → Except TlvError Value)))
    {fs : List (Field Schema)} (hnm : (fs.map name).Nodup)
    (ht : ∀ fl ∈ fs, fieldById b fl.id = some fl.decoder)
    (h : ∀ fl ∈ fs, EntryPasses fl (getProperty ps fl.name)) :
    ∃ ts, WritesTrees (fun w => encodeStructure (fs.map Field.encoder) ps w) ts ∧
      ∀ acc, (∀ fl ∈ fs, fl.name ∉ acc.map fst) → decodeTreeObject a b ts acc =
          .ok (acc ++ normaliseProperties (fs.map Field.normaliser) ps) := by
  induction fs with
  | nil => exact ⟨[], WritesTrees.skip,
      fun acc _ => by simp [decodeTreeObject, normaliseProperties]⟩
  | cons fl fs ih =>
    rw [map_cons, nodup_cons] at hnm
    obtain ⟨ts, hw, hd⟩ := ih hnm.2 (fun f hm => ht f (mem_cons_of_mem _ hm))
      (fun f hm => h f (mem_cons_of_mem _ hm))
    obtain ⟨ts', hw', hd'⟩ := h fl (mem_cons_self ..)
    refine ⟨ts' ++ ts, ?_, fun acc ha => ?_⟩
    · simp only [map_cons]
      exact hw'.append hw
    · rw [hd' a b ts acc (ht fl (mem_cons_self ..)) (ha fl (mem_cons_self ..)), hd]
      · rw [map_cons, normaliseProperties_cons, append_assoc]
        rfl
      · intro f' hm he
        rw [map_append, mem_append] at he
        rcases he with he | he
        · exact ha f' (mem_cons_of_mem _ hm) he
        · have hna : f'.name = fl.name := by
            cases hn : fl.normaliser.2 (getProperty ps fl.name) <;> simp [hn] at he
            exact he
          exact hnm.1 (hna ▸ mem_map_of_mem hm)

/-- The entries of an object are written in the order of its arranged fields. -/
theorem encodeObject_eq (ss : ObjectSettings)
    (hk : ∀ p ∈ ps, ∃ fl ∈ fs, fl.name = p.1) (w : DataWriter) : (if ss.isList then
        encodeList ss.preserveDataOrdering (fs.map Field.encoder) ps w
      else encodeStructure (fs.map Field.encoder) ps w) =
      encodeStructure ((arrange name ss fs ps).map Field.encoder) ps w := by
  have hf : ps.find? (fun p =>
      ¬ (fs.map Field.encoder).any (·.name = p.1)) = none := by
    refine find?_eq_none.mpr fun p hp => ?_
    obtain ⟨fl, hm, hn⟩ := hk p hp
    simpa using ⟨fl, hm, hn⟩
  have ha := arrange_map FieldEncoder.name ss Field.encoder fs ps
  rw [show FieldEncoder.name ∘ Field.encoder = name from rfl] at ha
  rw [← ha]
  obtain ⟨isList, a, preserveDataOrdering⟩ := ss
  cases isList with
  | false => rfl
  | true =>
    rw [if_pos rfl, encodeList, hf]
    cases preserveDataOrdering <;> rfl

theorem passes_object {ss : ObjectSettings} (hnm : (fs.map name).Nodup)
    (hi : (fs.map Field.id).Nodup) (hp : (ps.map fst).Nodup)
    (hk : ∀ p ∈ ps, ∃ fl ∈ fs, fl.name = p.1)
    (h : ∀ fl ∈ fs, EntryPasses fl (getProperty ps fl.name)) :
    Passes (.object ss fs) (.object ps) := by
  intro tag ht
  have hpr := arrange_perm ss hnm hp hk
  obtain ⟨ts, hw, hd⟩ := passes_fields ss.allowProtocolSpecificTags
    (fs.map Field.decoder) ((hpr.map name).nodup_iff.mpr hnm)
    (fun fl hm => fieldById_decoder hi (hpr.mem_iff.mp hm))
    (fun fl hm => h fl (hpr.mem_iff.mp hm))
  have hkn : (if ss.isList then ContainerKind.list else .struct).typeLength =
      if ss.isList then .list else .struct := by
    split_ifs <;> rfl
  refine ⟨.node tag (if ss.isList then .list else .struct) ts none, rfl, ?_, ?_, ?_, ?_⟩
  · rw [Tree.typeLength, hkn]
    split_ifs <;> simp
  · rw [Tree.typeLength, hkn]
    split_ifs <;> simp
  · have hn := hw.node ht (if ss.isList then .list else .struct)
    simp only [hkn, ← encodeObject_eq ss hk] at hn
    simp only [Schema.encodeTlvInternal, fieldEncoders_eq]
    revert hn
    cases ss.isList <;> exact id
  · have hnr := arrange_map fst ss Field.normaliser fs ps
    rw [show fst ∘ Field.normaliser = name from rfl] at hnr
    simp only [Schema.decodeTree, Tree.typeLength, hkn, fieldTreeDecoders_eq]
    rw [hd [] (fun _ _ => by simp), ok_bind, Schema.normalise, normalisers_eq]
    simp only [← hnr]
    rfl

end Objects

mutual

/-- Every valid value of a schema passes, if it fits the wire. -/
theorem passes : (s : Schema) → s.Standard → (va : Value) → s.validate va = .ok () →
    s.Everywhere OfType va → s.Everywhere FitsWire va → Passes s va
  | .boolean, _, _, hv, _, _ => passes_boolean hv
  | .numeric _, hs, _, hv, ⟨_, rfl⟩, _ => passes_numeric hs hv
  | .string _, _, _, hv, ht, hf => passes_string hv ht hf
  | .nullable s, hs, va, hv, ht, hf => passes_nullable fun hn =>
    passes s hs va (validate_nullable hn ▸ hv) (ht.2 hn) (hf.2 hn)
  | .array s _ _, hs, va, hv, ht, hf => by
    have ih := passes s hs
    obtain ⟨elements, rfl, -, ha⟩ := validate_array.mp hv
    exact passes_array fun e hm =>
      ih e (ha _ hm) (ht.2 _ rfl _ hm) (hf.2 _ rfl _ hm)
  | .object settings fs, ⟨hnm, hi, _, hd⟩, va, hv, ht, hf => by
    have ih := passes_all fs hd
    obtain ⟨⟨ps, rfl, hpr, hk⟩, hp⟩ := ht
    have hp := everywhereFields_iff.mp (hp ps rfl)
    have hft := everywhereFields_iff.mp (hf.2 ps rfl)
    have hv := validateFields_eq_ok.mp hv
    refine passes_object hnm hi hpr hk fun i hm => ?_
    exact entryPasses (hv i hm) (fun he => (hf.1 i hm he).1)
      (passes_parts (hv i hm) (ih i hm) (hp i hm) (hft i hm))

theorem passes_all : (fs : List (Field Schema)) → StandardFields fs →
    ∀ i ∈ fs, ∀ a, i.schema.validate a = .ok () →
      i.schema.Everywhere OfType a → i.schema.Everywhere FitsWire a → Passes i.schema a
  | ⟨_, _, schema, _, _, _, _, _⟩ :: fs, ⟨hs, hrs⟩, i, hm => by
    rcases mem_cons.mp hm with rfl | hm
    · exact passes schema hs
    · exact passes_all fs hrs i hm

end

section Overlong

variable {l : TlvLength} {te : List UInt16}

end Overlong

end MatterJs.Tlv
