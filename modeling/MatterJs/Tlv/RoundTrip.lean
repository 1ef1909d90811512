import Mathlib.Data.List.Forall2
import MatterJs.Tlv.CodecRoundTrip
import MatterJs.Tlv.Tree

/-!
# What the writer emits, the reader reads back

A well-formed element of any depth through `TlvAny.encode` and `TlvAny.decode`:
the cases in which it comes back, and that the decoder refuses it otherwise or
returns something else.
-/
namespace MatterJs.Tlv

open TlvCodec AnySchema List Tree TlvValue

/-- A reader fills the values that the type says already, and has no empty tags. -/
def TlvElement.expected (e : TlvElement) : TlvElement where
  tag := normalTag e.tag
  typeLength := e.typeLength
  value := match e.typeLength with
    | .boolean b => some (.boolean b)
    | .null => some .null
    | _ => e.value

/-- An element that is no container, with a value of its type that fits the stated length. -/
def TlvElement.WellFormed (e : TlvElement) : Prop :=
  TagAccepted e.tag ∧
    match e.typeLength with
    | .signedInt _ | .unsignedInt _ | .float _ | .utf8String _ | .byteString _ =>
      ∃ value, e.value = some value ∧ ValueFits e.typeLength value
    | .boolean b => e.value = none ∨ e.value = some (.boolean b)
    | .null => e.value = none ∨ e.value = some .null
    | .struct | .array | .list | .endOfContainer | .reserved _ => False

mutual

/-- One well-formed element: a primitive, or a container closed by its own end. -/
def Tree.WellFormed : Tree → Prop
  | .leaf e => e.WellFormed
  | .node tag _ children endTag =>
    TagAccepted tag ∧ Tree.WellFormedAll children ∧ TagAccepted endTag

def Tree.WellFormedAll : List Tree → Prop
  | [] => True
  | t :: ts => t.WellFormed ∧ Tree.WellFormedAll ts

end

/-- Text that survives: no lone surrogates, no byte order mark in front. -/
def TlvElement.TextSurvives (e : TlvElement) : Prop :=
  ∀ s, e.value = some (.string s) → TextCodec.WellFormed s ∧ s.head? ≠ some 0xFEFF

/-- `TlvAny` returns the first element without its tag. -/
def dropRootTag : TlvStream → TlvStream
  | [] => []
  | e :: es => { e with tag := none } :: es

def writeStream (s : TlvStream) (w : DataWriter) : Except TlvError DataWriter :=
  s.foldlM (fun w e => encodeElement tlvByteArrayWriter w e.tag e) w

/-- No tag is fully qualified with 64 bits. -/
def Readable (s : TlvStream) : Prop := ∀ e ∈ s, ¬ IsFullyQualified64 e.tag

/-- The element that is read where another was written. -/
structure ReadFrom (e e' : TlvElement) : Prop where
  typeLength : e'.typeLength = e.typeLength
  tag : e'.tag = normalTag e.tag ↔ TagFits e.tag
  value : e'.value = e.expected.value.map readBack

/-- The reader has no case for the tag. -/
def refusal : TlvError := .notImplemented "Unexpected tagControl 7"

/-- The bytes of a tree, and what the decoder makes of them. -/
structure TreeRoundTrip (t : Tree) (bs : List UInt8) : Prop where
  length : t.stream.length ≤ bs.length
  writes : Writes (writeStream t.stream) bs
  refused : ¬ Readable t.stream → ∀ offset rest, readTagType ⟨offset, bs ++ rest⟩ = .error refusal ∨
    ∃ tag r, readTagType ⟨offset, bs ++ rest⟩ = .ok ((tag, t.typeLength), r) ∧
      t.stream.length ≤ r.remaining.length + 1 ∧ ∀ fuel acc tag, t.stream.length + 1 ≤ fuel →
        decodeTlvValueRec tlvByteArrayReader fuel r t.typeLength acc tag = .error refusal
  reads : Readable t.stream → ∃ t' : Tree, List.Forall₂ ReadFrom t.stream t'.stream ∧
    t'.typeLength = t.typeLength ∧
    ∀ offset rest, Yields tlvByteArrayReader t' ⟨offset, bs ++ rest⟩ ⟨offset + bs.length, rest⟩

structure TreesRoundTrip (ts : List Tree) (bs : List UInt8) : Prop where
  length : (streams ts).length ≤ bs.length
  writes : Writes (writeStream (streams ts)) bs
  refused : ¬ Readable (streams ts) → ∀ offset rest fuel acc, (streams ts).length + 2 ≤ fuel →
      decodeElements tlvByteArrayReader fuel ⟨offset, bs ++ rest⟩ acc = .error refusal
  reads : Readable (streams ts) → ∃ ts', List.Forall₂ ReadFrom (streams ts) (streams ts') ∧
      ∀ offset rest,
        YieldsAll tlvByteArrayReader ts' ⟨offset, bs ++ rest⟩ ⟨offset + bs.length, rest⟩

variable {s₁ s₂ : TlvStream}

theorem Writes.append {bs₁ b : List UInt8} (h₁ : Writes (writeStream s₁) bs₁)
    (h₂ : Writes (writeStream s₂) b) : Writes (writeStream (s₁ ++ s₂)) (bs₁ ++ b) := by
  intro w
  rw [writeStream, foldlM_append]
  exact (h₁.bind h₂) w

theorem Readable.append : Readable (s₁ ++ s₂) ↔ Readable s₁ ∧ Readable s₂ := by
  simp [Readable, or_imp, forall_and]

variable {e : TlvElement} {s s' : TlvStream} {bs : List UInt8}

theorem readable_singleton : Readable [e] ↔ ¬ IsFullyQualified64 e.tag := by
  simp [Readable]

/-- The value behind the tag of an element that is no container. -/
theorem elementValue_roundTrip (h : e.WellFormed) :
    ∃ vb, (∀ tag t, Writes (fun w => writeTag w e.typeLength tag) t →
        Writes (fun w => encodeElement tlvByteArrayWriter w tag e) (t ++ vb)) ∧
      ∀ o rest, ReadsValue tlvByteArrayReader e.typeLength
        (e.expected.value.map readBack) ⟨o, vb ++ rest⟩ ⟨o + vb.length, rest⟩ := by
  obtain ⟨tag, typeLength, value⟩ := e
  obtain ⟨-, hv⟩ := h
  have hp : ∀ t, ∀ tag, Writes (fun w => writeTag w typeLength tag) t →
      Writes (fun w => writeTag w typeLength tag) (t ++ []) := by
    intro t tag hw
    rwa [append_nil]
  have hpr : ∀ v, ValueFits typeLength v →
      ∃ vb, (∀ tag t, Writes (fun w => writeTag w typeLength tag) t →
        Writes (fun w => writeTag w typeLength tag >>=
          fun w => writePrimitive w typeLength (some v)) (t ++ vb)) ∧
        ∀ o rest, tlvByteArrayReader.readPrimitive ⟨o, vb ++ rest⟩ typeLength =
          .ok (some v.readBack, ⟨o + vb.length, rest⟩) := by
    intro v hf
    obtain ⟨vb, hw, hr⟩ := value_roundTrip hf
    exact ⟨vb, fun tag t ht => ht.bind hw, (hr.map some)⟩
  cases typeLength with
  | signedInt length | unsignedInt length | float length | utf8String length
  | byteString length =>
    obtain ⟨v, rfl, hf⟩ := hv
    exact hpr v hf
  | boolean b => exact ⟨[], fun tag t => hp t tag, fun o rest => ⟨rfl, rfl, rfl⟩⟩
  | null => exact ⟨[], fun tag t => hp t tag, fun o rest => ⟨rfl, rfl⟩⟩
  | _ => cases hv

theorem leaf_roundTrip (h : e.WellFormed) : ∃ bs, TreeRoundTrip (.leaf e) bs := by
  obtain ⟨t, ht⟩ := tag_roundTrip h.1 e.typeLength
  obtain ⟨v, hw, hr⟩ := elementValue_roundTrip h
  have ho : (leaf e).stream = [e] := rfl
  refine ⟨t ++ v, ?_, ?_, ?_, ?_⟩
  · have := ht.nonempty
    simp only [ho, length_singleton, length_append]
    omega
  · intro w
    simp only [ho, writeStream, foldlM_cons, hw _ _ ht.writes w]
    rfl
  · intro hn off rest
    rw [ho, readable_singleton, Classical.not_not] at hn
    left
    rw [append_assoc]
    exact ht.unreadable hn off _
  · intro hn
    rw [ho, readable_singleton] at hn
    obtain ⟨tag', ha, hd⟩ := ht.reads hn
    refine ⟨.leaf ⟨tag', e.typeLength, e.expected.value.map readBack⟩, ?_, rfl, ?_⟩
    · exact .cons ⟨rfl, ha, rfl⟩ .nil
    · intro off rest
      rw [append_assoc]
      refine ⟨_, hd off (v ++ rest), ?_⟩
      have := hr (off + t.length) rest
      rwa [Nat.add_assoc, ← length_append] at this

/-- The elements of a container are read, but its end is not. -/
theorem decodeElements_refused {r r₁ : DataReader} {f : Nat} (c : TlvStream) :
    (ts : List Tree) → YieldsAll tlvByteArrayReader ts r r₁ →
    readTagType r₁ = .error refusal → NoReserved (streams ts) → (streams ts).length + 2 ≤ f →
    decodeElements tlvByteArrayReader f r c = .error refusal
  | [], h, he, _, hf => by
    obtain ⟨f, rfl⟩ : ∃ n, f = n + 1 := ⟨f - 1, by omega⟩
    obtain rfl : r = r₁ := h
    simp [decodeElements, tlvByteArrayReader, he]
  | t :: ts, h, he, hn, hf => by
    obtain ⟨f, rfl⟩ : ∃ n, f = n + 1 := ⟨f - 1, by omega⟩
    obtain ⟨r₂, r₃, hd, ht, hv, hs⟩ := h
    obtain ⟨hn1, hn2⟩ := NoReserved.append.mp hn
    simp only [streams, length_append] at hf
    have hp := t.stream_ne_nil
    rw [decodeElements_cons hd ht hv hn1 (by omega)]
    exact decodeElements_refused _ ts hs he hn2 (by omega)

theorem ReadFrom.noReserved (h : List.Forall₂ ReadFrom s s')
    (hs : NoReserved s) : NoReserved s' := by
  induction h with
  | nil => exact hs
  | @cons e e' s s' he _ ih =>
    intro x hx
    rcases mem_cons.mp hx with rfl | hx
    · rw [he.typeLength]
      exact hs e (mem_cons_self ..)
    · exact ih (fun e hm => hs e (mem_cons_of_mem _ hm)) x hx

mutual

theorem Tree.WellFormed.noReserved : (t : Tree) → t.WellFormed → NoReserved t.stream
  | .leaf e, h => by
    intro x hx
    obtain rfl := mem_singleton.mp hx
    have := h.2
    intro hr
    cases hl : x.typeLength <;> simp_all [TlvTypeLength.IsReserved]
  | .node tag ki children en, h => by
    have ih := Tree.WellFormedAll.noReserved children h.2.1
    intro x hx
    simp only [stream, mem_cons, mem_append, not_mem_nil, or_false] at hx
    rcases hx with rfl | hx | rfl
    · cases ki <;> exact id
    · exact ih x hx
    · exact id

theorem Tree.WellFormedAll.noReserved : (ts : List Tree) → Tree.WellFormedAll ts →
    NoReserved (streams ts)
  | [], _ => by simp [streams, NoReserved]
  | t :: ts, h => NoReserved.append.mpr
      ⟨Tree.WellFormed.noReserved t h.1, Tree.WellFormedAll.noReserved ts h.2⟩

end

theorem Tree.WellFormed.ne_end {t : Tree} (h : t.WellFormed) : t.typeLength ≠ .endOfContainer := by
  cases t with
  | leaf e =>
    intro he
    have hv := h.2
    rw [show e.typeLength = .endOfContainer from he] at hv
    exact hv
  | node tag k c et => cases k <;> simp [typeLength, ContainerKind.typeLength]

theorem trees_cons {t : Tree} {ts : List Tree} {bs' : List UInt8} (hw : t.WellFormed)
    (h : TreeRoundTrip t bs) (h' : TreesRoundTrip ts bs') :
    TreesRoundTrip (t :: ts) (bs ++ bs') := by
  have hc : streams (t :: ts) = t.stream ++ streams ts := rfl
  refine ⟨?_, ?_, ?_, ?_⟩
  · have := h.length
    have := h'.length
    simp only [hc, length_append]
    omega
  · exact h.writes.append h'.writes
  · intro hn off rest f a hf
    rw [hc, Readable.append] at hn
    rw [hc, length_append] at hf
    have hp := t.stream_ne_nil
    obtain ⟨f, rfl⟩ : ∃ n, f = n + 1 := ⟨f - 1, by omega⟩
    rw [append_assoc]
    by_cases ht : Readable t.stream
    · obtain ⟨t', he, hl, hy⟩ := h.reads ht
      obtain ⟨r₁, hr, hv⟩ := hy off (bs' ++ rest)
      have hlen := he.length_eq
      rw [decodeElements_cons (hl ▸ hw.ne_end) hr hv
        (ReadFrom.noReserved he (Tree.WellFormed.noReserved t hw)) (by omega)]
      exact h'.refused (fun hts => hn ⟨ht, hts⟩) _ _ _ _ (by omega)
    · rcases h.refused ht off (bs' ++ rest) with hr | ⟨tag, r, hr, -, hrec⟩
      · simp [decodeElements, tlvByteArrayReader, hr]
      · have := hrec f a tag (by omega)
        simp only [decodeElements, tlvByteArrayReader, hr, ok_bind] at this ⊢
        rw [this, error_bind]
  · intro hn
    rw [hc, Readable.append] at hn
    obtain ⟨t', he, hl, hy⟩ := h.reads hn.1
    obtain ⟨ts', hd, hs⟩ := h'.reads hn.2
    refine ⟨t' :: ts', rel_append he hd, ?_⟩
    intro off rest
    rw [append_assoc]
    obtain ⟨r₁, hr, hv⟩ := hy off (bs' ++ rest)
    refine ⟨r₁, _, hl ▸ hw.ne_end, hr, hv, ?_⟩
    have := hs (off + bs.length) rest
    rwa [Nat.add_assoc, ← length_append] at this

theorem trees_nil : TreesRoundTrip [] [] := by
  refine ⟨Nat.le_refl _, ?_, ?_, ?_⟩
  · intro w
    simp [streams]
    rfl
  · intro hn
    exact absurd (by simp [Readable, streams]) hn
  · intro _
    exact ⟨[], .nil, fun off rest => rfl⟩

/-- A tag on its own, as containers and their ends are written. -/
theorem writes_container (h : Writes (fun w => writeTag w e.typeLength e.tag) bs)
    (hc : e.typeLength = .struct ∨ e.typeLength = .array ∨ e.typeLength = .list ∨
      e.typeLength = .endOfContainer) : Writes (writeStream [e]) bs := by
  intro w
  obtain ⟨tag, typeLength, value⟩ := e
  have := h w
  rcases hc with rfl | rfl | rfl | rfl <;> simp_all [writeStream, encodeElement, tlvByteArrayWriter]

theorem decodeTlvValueRec_container (k : ContainerKind) (f : Nat) (r : DataReader) (a : TlvStream)
    (tag : Option TlvTag) : decodeTlvValueRec tlvByteArrayReader (f + 1) r k.typeLength a tag =
    decodeElements tlvByteArrayReader f r (a ++ [⟨tag, k.typeLength, none⟩]) := by
  cases k <;> rfl

theorem node_roundTrip {tag en : Option TlvTag} {k : ContainerKind} {c : List Tree} {b : List UInt8}
    (ha : TagAccepted tag) (hend : TagAccepted en) (hw : Tree.WellFormedAll c)
    (h : TreesRoundTrip c b) : ∃ bs, TreeRoundTrip (.node tag k c en) bs := by
  obtain ⟨t, ht⟩ := tag_roundTrip ha k.typeLength
  obtain ⟨eb, he⟩ := tag_roundTrip hend .endOfContainer
  have hres := Tree.WellFormedAll.noReserved c hw
  have hs : (node tag k c en).stream = [⟨tag, k.typeLength, none⟩] ++
        (streams c ++ [⟨en, .endOfContainer, none⟩]) := rfl
  have hkn : k.typeLength = .struct ∨ k.typeLength = .array ∨ k.typeLength = .list ∨
      k.typeLength = .endOfContainer := by cases k <;> simp [ContainerKind.typeLength]
  refine ⟨t ++ (b ++ eb), ?_, ?_, ?_, ?_⟩
  · have := ht.nonempty
    have := he.nonempty
    have := h.length
    simp only [hs, length_append, length_singleton]
    omega
  · rw [hs]
    exact (writes_container ht.writes hkn).append
      (h.writes.append (writes_container he.writes (by simp)))
  · intro hn off rest
    rw [hs, Readable.append, Readable.append, readable_singleton, readable_singleton] at hn
    simp only [append_assoc]
    by_cases hrt : IsFullyQualified64 tag
    · exact .inl (ht.unreadable hrt off _)
    · obtain ⟨tag', -, hd⟩ := ht.reads hrt
      have := h.length
      have := he.nonempty
      refine .inr ⟨tag', _, hd off _, ?_, ?_⟩
      · simp only [hs, length_append, length_singleton]
        omega
      intro f a tag hf
      simp only [hs, length_append, length_singleton] at hf
      obtain ⟨f, rfl⟩ : ∃ n, f = n + 1 := ⟨f - 1, by omega⟩
      rw [show (node _ k c en).typeLength = k.typeLength from rfl, decodeTlvValueRec_container]
      by_cases hc : Readable (streams c)
      · obtain ⟨ts', hr, hy⟩ := h.reads hc
        have hlen := hr.length_eq
        have hls : IsFullyQualified64 en :=
          Classical.byContradiction (fun hl => hn ⟨hrt, hc, hl⟩)
        exact decodeElements_refused _ ts' (hy _ _) (he.unreadable hls _ _)
          (ReadFrom.noReserved hr hres) (by omega)
      · exact h.refused hc _ _ _ _ (by omega)
  · intro hn
    rw [hs, Readable.append, Readable.append, readable_singleton, readable_singleton] at hn
    obtain ⟨hrt, hc, hls⟩ := hn
    obtain ⟨tag', ht', hd⟩ := ht.reads hrt
    obtain ⟨e', he', hre⟩ := he.reads hls
    obtain ⟨ts', hr, hy⟩ := h.reads hc
    refine ⟨.node tag' k ts' e', ?_, rfl, ?_⟩
    · have hfl : ∀ tag, (TlvElement.mk tag k.typeLength none).expected.value = none := by
        intro tag
        cases k <;> rfl
      exact .cons ⟨rfl, ht', by rw [hfl]; rfl⟩
        (rel_append hr (.cons ⟨rfl, he', rfl⟩ .nil))
    · intro off rest
      simp only [append_assoc]
      refine ⟨_, hd off _, _, hy _ _, ?_⟩
      have := hre (off + t.length + b.length) rest
      simp only [length_append, Nat.add_assoc] at this ⊢
      exact this

mutual

theorem tree_roundTrip : (t : Tree) → t.WellFormed → ∃ bs, TreeRoundTrip t bs
  | .leaf _, h => leaf_roundTrip h
  | .node _ _ children _, ⟨ht, hw, he⟩ => by
    obtain ⟨c, hc⟩ := trees_roundTrip children hw
    exact node_roundTrip ht he hw hc

theorem trees_roundTrip : (ts : List Tree) → Tree.WellFormedAll ts → ∃ bs, TreesRoundTrip ts bs
  | [], _ => ⟨[], trees_nil⟩
  | t :: ts, ⟨ht, hs⟩ => by
    obtain ⟨bs, h⟩ := tree_roundTrip t ht
    obtain ⟨bs', h'⟩ := trees_roundTrip ts hs
    exact ⟨bs ++ bs', trees_cons ht h h'⟩

end

mutual

theorem Tree.WellFormed.value_expected : (t : Tree) → t.WellFormed →
    ∀ e ∈ t.stream, e.value = none ∨ e.value = e.expected.value
  | .leaf ⟨tag, typeLength, value⟩, h, e, he => by
    obtain rfl := mem_singleton.mp he
    have hv := h.2
    cases typeLength <;> simp_all [TlvElement.expected]
  | .node _ ki children _, h, e, he => by
    simp only [stream, mem_cons, mem_append, not_mem_nil, or_false] at he
    rcases he with rfl | he | rfl
    · exact .inl rfl
    · exact Tree.WellFormedAll.value_expected children h.2.1 e he
    · exact .inl rfl

theorem Tree.WellFormedAll.value_expected : (ts : List Tree) → Tree.WellFormedAll ts →
    ∀ e ∈ streams ts, e.value = none ∨ e.value = e.expected.value
  | [], _, e, he => by simp [streams] at he
  | t :: ts, h, e, he => by
    rcases mem_append.mp he with he | he
    · exact Tree.WellFormed.value_expected t h.1 e he
    · exact Tree.WellFormedAll.value_expected ts h.2 e he

end

/-- Only the text of a string can change on the way. -/
theorem readBack_eq_iff (h : e.value = none ∨ e.value = e.expected.value) :
    e.expected.value.map readBack = e.expected.value ↔ e.TextSurvives := by
  unfold TlvElement.TextSurvives
  rcases h with h | h
  · simp only [h, reduceCtorEq, false_implies, implies_true, iff_true]
    obtain ⟨tag, t, value⟩ := e
    obtain rfl : value = none := h
    cases t <;> rfl
  · rw [← h]
    cases hv : e.value with
    | none => simp
    | some value =>
      cases value with
      | string s => simp [readBack, TextCodec.decode_encode_iff]
      | _ => simp [readBack]

theorem ReadFrom.eq_expected_iff {e' : TlvElement} (h : ReadFrom e e') (hv : e.value = none ∨
    e.value = e.expected.value) : e' = e.expected ↔ TagFits e.tag ∧ e.TextSurvives := by
  have : e' = e.expected ↔ e'.tag = e.expected.tag ∧ e'.value = e.expected.value := by
    obtain ⟨tag', t', v'⟩ := e'
    have ht : t' = e.expected.typeLength := h.typeLength
    simp [TlvElement.ext_iff, ht]
  rw [this, h.value, readBack_eq_iff hv]
  exact and_congr_left' h.tag

theorem ReadFrom.map_expected_iff (h : List.Forall₂ ReadFrom s s')
    (hv : ∀ e ∈ s, e.value = none ∨ e.value = e.expected.value) :
    s' = s.map TlvElement.expected ↔ ∀ e ∈ s, TagFits e.tag ∧ e.TextSurvives := by
  induction h with
  | nil => simp
  | @cons e e' s s' he _ ih =>
    rw [map_cons, List.cons.injEq, he.eq_expected_iff (hv e (mem_cons_self ..)),
      ih (fun e hm => hv e (mem_cons_of_mem _ hm)), forall_mem_cons]

/-- The tag of the root is dropped, so that only its value has to survive. -/
theorem ReadFrom.dropRootTag_iff (h : List.Forall₂ ReadFrom s s') (hv : ∀ e ∈ s, e.value = none ∨
    e.value = e.expected.value) : dropRootTag s' = dropRootTag (s.map TlvElement.expected) ↔
    (∀ e ∈ s, e.TextSurvives) ∧ ∀ e ∈ s.tail, TagFits e.tag := by
  cases h with
  | nil => simp [dropRootTag]
  | @cons e e' s s' he hs =>
    have hrt : ({ e' with tag := none } : TlvElement) = { e.expected with tag := none } ↔
        e.TextSurvives := by
      have ht : e'.typeLength = e.expected.typeLength := he.typeLength
      rw [TlvElement.mk.injEq, ht, he.value, readBack_eq_iff (hv e (mem_cons_self ..))]
      simp
    rw [map_cons, dropRootTag, dropRootTag, List.cons.injEq, hrt,
      ReadFrom.map_expected_iff hs (fun e hm => hv e (mem_cons_of_mem _ hm)),
      forall_mem_cons, tail_cons]
    simp [forall_and, and_assoc, and_comm (a := ∀ e ∈ s, TagFits e.tag)]

theorem dropRootTag_stream (t : Tree) : dropRootTag t.stream = (t.withTag none).stream := by
  cases t <;> rfl

theorem anyEncode_eq (s : TlvStream) :
    encode s = (writeStream s .empty >>= fun w => pure w.bytes) := by
  cases s <;> rfl

theorem anyEncode_of_writes (h : Writes (writeStream s) bs) : encode s = .ok bs := by
  rw [anyEncode_eq, h .empty]
  rfl

/-- A well-formed element comes back, without the tag of its root, exactly when no tag is
fully qualified with 64 bits, all tags below the root fit their fields, and all text has
neither lone surrogates nor a byte order mark in front. -/
theorem anyDecode_anyEncode_iff (t : Tree) (h : t.WellFormed) : (encode t.stream >>= decode) =
        .ok (dropRootTag (t.stream.map TlvElement.expected)) ↔
      (∀ e ∈ t.stream, ¬ IsFullyQualified64 e.tag) ∧ (∀ e ∈ t.stream, e.TextSurvives) ∧
        ∀ e ∈ t.stream.tail, TagFits e.tag := by
  obtain ⟨bs, hb⟩ := tree_roundTrip t h
  rw [anyEncode_of_writes hb.writes, ok_bind]
  by_cases hr : Readable t.stream
  · obtain ⟨t', hrd, htl, hy⟩ := hb.reads hr
    have hy' := hy 0 []
    rw [append_nil] at hy'
    obtain ⟨r₁, ht, hv⟩ := hy'
    have ha := anyValue_of_yields byteArray_progresses hv
      (ReadFrom.noReserved hrd (Tree.WellFormed.noReserved t h))
    have hd : decode bs = .ok (dropRootTag t'.stream) := by
      rw [dropRootTag_stream]
      unfold decode
      rw [show readTagType (DataReader.of bs) = _ from ht]
      simp only [ok_bind, ha]
      rfl
    rw [hd, Except.ok.injEq, ReadFrom.dropRootTag_iff hrd (Tree.WellFormed.value_expected t h)]
    exact ⟨fun hc => ⟨hr, hc⟩, fun hc => hc.2⟩
  · have he : decode bs = .error refusal := by
      have hf := hb.refused hr 0 []
      rw [append_nil] at hf
      unfold decode
      rcases hf with hrt | ⟨tag, r, hrt, hl, hrec⟩
      · rw [show readTagType (DataReader.of bs) = _ from hrt, error_bind]
      · rw [show readTagType (DataReader.of bs) = _ from hrt]
        have hfl : t.stream.length + 1 ≤ 2 * tlvByteArrayReader.remaining r + 2 := by
          simp only [tlvByteArrayReader]
          omega
        simp only [ok_bind, decodeTlvInternalValue, hrec _ _ _ hfl, error_bind]
    rw [he]
    exact ⟨fun hc => (by cases hc), fun hc => absurd hc.1 hr⟩

/-- A structure with a text field, as it comes back. -/
theorem anyDecode_anyEncode_text : (encode
        [⟨none, .struct, none⟩,
         ⟨some ⟨none, some 1⟩, .utf8String .oneByte, some (.string [104, 233])⟩,
          ⟨none, .endOfContainer, none⟩] >>= decode) = .ok [⟨none, .struct, none⟩,
        ⟨some ⟨none, some 1⟩, .utf8String .oneByte, some (.string [104, 233])⟩,
        ⟨none, .endOfContainer, none⟩] := by
  refine (anyDecode_anyEncode_iff (.node none .struct [.leaf ⟨some ⟨none, some 1⟩,
    .utf8String .oneByte, some (.string [104, 233])⟩] none) ?_).mpr ⟨?_, ?_, ?_⟩
  · exact ⟨trivial, ⟨⟨trivial, _, rfl, by decide, by decide⟩, trivial⟩, trivial⟩
  · simp [stream, streams, IsFullyQualified64]
  · simp only [stream, streams, TlvElement.TextSurvives]
    simp
    decide
  · simp [stream, streams, TagFits]

/-- The writer emits a 64 bit tag that the reader has no case for. -/
theorem fullyQualified64_refused :
    (leaf ⟨some ⟨some 0xfff1, some 0x10000⟩, .unsignedInt .oneByte, some (.int 1)⟩).WellFormed ∧
      (encode [⟨some ⟨some 0xfff1, some 0x10000⟩, .unsignedInt .oneByte,
        some (.int 1)⟩] >>= decode) = .error (.notImplemented "Unexpected tagControl 7") := by
  refine ⟨⟨trivial, _, rfl, by decide, by decide⟩, ?_⟩
  decide

end MatterJs.Tlv
