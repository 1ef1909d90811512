import MatterJs.Tlv.Codec

/-!
# The codec read back

What `TlvCodec` writes for a tag or a value, and what it reads from these bytes.
-/
namespace MatterJs.Tlv

open LittleEndian TlvCodec List DataWriter TlvValue DataReader

open Ieee754 (Double roundInteger roundInteger_of_lt)

variable {α β : Type} {bs bs' : List UInt8} {t : TagControl} {ty : TlvTypeLength}

/-- The writer appends these bytes. -/
def Writes (f : DataWriter → Except TlvError DataWriter) (bs : List UInt8) : Prop :=
  ∀ w, f w = .ok ⟨w.bytes ++ bs⟩

/-- From these bytes the reader takes this value, whatever follows. -/
def ReadsAs (f : DataReader → Except TlvError (α × DataReader)) (bs : List UInt8) (a : α) : Prop :=
  ∀ offset rest, f ⟨offset, bs ++ rest⟩ = .ok (a, ⟨offset + bs.length, rest⟩)

theorem Writes.bind {f g : DataWriter → Except TlvError DataWriter} (hf : Writes f bs)
    (hg : Writes g bs') : Writes (fun w => f w >>= g) (bs ++ bs') := by
  intro w
  simp [hf w, ok_bind, hg ⟨w.bytes ++ bs⟩]

variable {f : DataReader → Except TlvError (α × DataReader)}

theorem ReadsAs.bind {g : α → DataReader → Except TlvError (β × DataReader)} {a : α} {b : β}
    (hf : ReadsAs f bs a) (hg : ReadsAs (g a) bs' b) :
    ReadsAs (fun r => f r >>= fun (a, r) => g a r) (bs ++ bs') b := by
  intro off rest
  simp [hf off (bs' ++ rest), ok_bind, hg (off + bs.length) rest, Nat.add_assoc]

theorem ReadsAs.map {a : α} (hf : ReadsAs f bs a) (g : α → β) :
    ReadsAs (fun r => f r >>= fun (a, r) => pure (g a, r)) bs (g a) := by
  intro off rest
  simp only [hf off rest, ok_bind]
  rfl

theorem ReadsAs.pure (a : α) : ReadsAs (fun r => .ok (a, r)) [] a := by
  intro off rest
  rfl

theorem readsAs_advance (bs : List UInt8) : ReadsAs (fun r => r.advance bs.length) bs bs := by
  intro off rest
  simp [advance]

theorem readsAs_readUInt (w n : Nat) : ReadsAs (readUInt w) (encode w n) (n % 256 ^ w) := by
  have h := (readsAs_advance (encode w n)).map decode
  rw [decode_encode, length_encode] at h
  exact h

theorem readsAs_readUInt_wrap (w : Nat) (v : Int) :
    ReadsAs (readUInt w) (encodeInt w v) (wrap w v) := by
  have h := readsAs_readUInt w (wrap w v)
  rw [Nat.mod_eq_of_lt (wrap_lt w v)] at h
  exact h

theorem readsAs_readInt (w : Nat) (v : Int) : ReadsAs (readInt w)
    (encodeInt w v) (signed w (wrap w v)) :=
  (readsAs_readUInt_wrap w v).map (signed w)

def intBytes (length : TlvLength) (v : Int) : List UInt8 :=
  encodeInt length.bytes v

/-- A length of bytes fits its field, and is one that an array can have. -/
def LengthFits (length : TlvLength) (n : Nat) : Prop := n < 256 ^ length.bytes ∧ n < 2 ^ 53

def ValueFits : TlvTypeLength → TlvValue → Prop
  | .signedInt length, .int n => -(256 ^ length.bytes) ≤ 2 * n ∧ 2 * n < 256 ^ length.bytes
  | .unsignedInt length, .int n => 0 ≤ n ∧ n < 256 ^ length.bytes
  | .float .fourBytes, .float x => x.IsSingle
  | .float .eightBytes, .float _ => True
  | .utf8String length, .string s => LengthFits length (TextCodec.encode s).length
  | .byteString length, .bytes b => LengthFits length b.length
  | _, _ => False

/-- What a value is after the way through the bytes. -/
def TlvValue.readBack : TlvValue → TlvValue
  | .string s => .string (TextCodec.decode (TextCodec.encode s))
  | value => value

theorem writes_writeUInt (l : TlvLength) {v : Int} (h : v.natAbs < 2 ^ 53 ∨ l = .eightBytes) :
    Writes (fun w => .ok (writeUInt w l v)) (intBytes l v) := by
  intro w
  cases l with
  | eightBytes => rfl
  | _ =>
    have hr := roundInteger_of_lt (h.resolve_right (by simp))
    simp only [writeUInt, writeInt8, writeInt16, writeInt32, writeNumber, hr]
    rfl

theorem readsAs_length {l : TlvLength} {n : Nat} (h : LengthFits l n) :
    ReadsAs (fun r => readLength r l) (intBytes l n) n := by
  have hw : wrap l.bytes n = n := by
    have := wrap_of_nonneg (w := l.bytes) (v := (n : Int)) (by omega)
      (by exact_mod_cast h.1)
    omega
  have hd := readsAs_readUInt_wrap l.bytes n
  rw [hw] at hd
  cases l with
  | eightBytes =>
    have hr : (roundInteger (n : Int)).toNat = n := by
      rw [roundInteger_of_lt (by simpa using h.2)]
      simp
    have := hd.map (fun n => (roundInteger (n : Int)).toNat)
    rw [hr] at this
    exact this
  | _ => exact hd

theorem writes_lengthPrefixed (l : TlvLength) {b : List UInt8} (h : b.length < 2 ^ 53) :
    Writes (fun w => .ok ((writeUInt w l b.length).writeByteArray b))
      (intBytes l b.length ++ b) := by
  intro w
  have hw := writes_writeUInt l (v := b.length) (.inl (by simpa using h)) w
  rw [Except.ok.injEq] at hw
  simp [hw, writeByteArray]

/-- A value that fits is written, and read back up to the text of strings. -/
theorem value_roundTrip {l : TlvValue} (h : ValueFits ty l) :
    ∃ bs, Writes (fun w => writePrimitive w ty (some l)) bs ∧
      ReadsAs (fun r => readPrimitive r ty) bs l.readBack := by
  cases ty with
  | signedInt le =>
    cases l with
    | int n =>
      obtain ⟨hl, hh⟩ := h
      refine ⟨intBytes le n, writes_writeUInt le ?_, ?_⟩
      · cases le <;> simp [TlvLength.bytes] at * <;> omega
      · have hr := readsAs_readInt le.bytes n
        rw [signed_wrap hl hh] at hr
        have := hr.map int
        cases le <;> exact this
    | _ => cases h
  | unsignedInt le =>
    cases l with
    | int n =>
      obtain ⟨hl, hh⟩ := h
      refine ⟨intBytes le n, ?_, ?_⟩
      · have hw := writes_writeUInt le (v := n) (by
          cases le <;> simp [TlvLength.bytes] at * <;> omega)
        cases le <;> exact hw
      · have hr := (readsAs_readUInt_wrap le.bytes n).map (fun n => int (n : Nat))
        rw [wrap_of_nonneg hl hh] at hr
        cases le <;> exact hr
    | _ => cases h
  | float le =>
    cases l with
    | float x =>
      cases le with
      | fourBytes =>
        refine ⟨encode 4 x.toSingle, fun w => rfl, ?_⟩
        have hr := ((readsAs_readUInt 4 x.toSingle).map Double.ofSingle).map float
        rw [show 256 ^ 4 = 2 ^ 32 from rfl, Double.ofSingle_mod, Double.ofSingle_toSingle h] at hr
        exact hr
      | eightBytes =>
        refine ⟨encode 8 x.bits, fun w => rfl, ?_⟩
        have hr := ((readsAs_readUInt 8 x.bits).map Double.ofBits).map float
        rw [Nat.mod_eq_of_lt (by simpa using x.lt), Double.ofBits_bits] at hr
        exact hr
    | _ => cases le <;> cases h
  | utf8String le =>
    cases l with
    | string s =>
      refine ⟨_, writes_lengthPrefixed le h.2, ?_⟩
      have hr := ((readsAs_advance (TextCodec.encode s)).map TextCodec.decode).map string
      exact ReadsAs.bind (g := fun le r => do
        let p ← r.readUtf8String le return (string p.1, p.2)) (readsAs_length h) hr
    | _ => cases h
  | byteString le =>
    cases l with
    | bytes b =>
      refine ⟨_, writes_lengthPrefixed le h.2, ?_⟩
      exact ReadsAs.bind (g := fun le r => do
        let p ← r.readByteArray le return (bytes p.1, p.2)) (readsAs_length h)
        ((readsAs_advance b).map bytes)
    | _ => cases h
  | _ => cases l <;> cases h

/-- The tags that `writeTag` does not refuse. -/
def TagAccepted : Option TlvTag → Prop
  | some ⟨some _, none⟩ => False
  | _ => True

/-- Id and profile fit the fields they are written to. -/
def TagFits : Option TlvTag → Prop
  | some ⟨none, some id⟩ => id < 2 ^ 8
  | some ⟨some profile, some id⟩ => profile < 2 ^ 32 ∧ id < 2 ^ 32
  | _ => True

/-- The tags that are written fully qualified with 64 bits. -/
def IsFullyQualified64 : Option TlvTag → Prop
  | some ⟨some profile, some id⟩ => profile ≠ matterCommonProfile ∧ ¬ fits16 id
  | _ => False

instance : DecidablePred IsFullyQualified64
  | none | some ⟨none, _⟩ | some ⟨some _, none⟩ => isFalse id
  | some ⟨some _, some _⟩ => inferInstanceAs (Decidable (_ ∧ _))

/-- An empty tag is no tag. -/
def normalTag : Option TlvTag → Option TlvTag
  | some ⟨none, none⟩ => none
  | tag => tag

theorem typeLengthCode_lt (ty : TlvTypeLength) : typeLengthCode ty < 32 := by
  cases ty with
  | signedInt le | unsignedInt le | utf8String le | byteString le =>
    cases le <;> decide
  | float le => cases le <;> decide
  | boolean value => cases value <;> decide
  | reserved code => revert code; decide
  | _ => decide

theorem parseTypeLength_code (ty : TlvTypeLength) : parseTypeLength (typeLengthCode ty) = ty := by
  cases ty with
  | signedInt le | unsignedInt le | utf8String le | byteString le =>
    cases le <;> rfl
  | float le => cases le <;> rfl
  | boolean value => cases value <;> rfl
  | reserved code => revert code; decide
  | _ => rfl

/-- An unsigned number of up to four bytes, as it is read back. -/
def wireNumber (w n : Nat) : Nat := wrap w (roundInteger n)

theorem readsAs_wireNumber (w n : Nat) : ReadsAs (readUInt w)
    (encodeInt w (roundInteger n)) (wireNumber w n) :=
  readsAs_readUInt_wrap w _

theorem wireNumber_eq_iff {w n : Nat} (hw : 256 ^ w ≤ 2 ^ 32) :
    wireNumber w n = n ↔ n < 256 ^ w := by
  refine ⟨fun h => h ▸ wrap_lt w _, fun h => ?_⟩
  unfold wireNumber
  rw [roundInteger_of_lt (by simp only [Int.natAbs_natCast]; omega)]
  have := wrap_of_nonneg (w := w) (v := (n : Int)) (by omega) (by exact_mod_cast h)
  omega

section

variable (t ty)

def controlBytes : List UInt8 :=
  encodeInt 1 (roundInteger (controlByte t ty))

theorem readsAs_controlBytes :
    ReadsAs readUInt8 (controlBytes t ty) (t.code * 32 + typeLengthCode ty) := by
  have hl := typeLengthCode_lt ty
  have hc : t.code < 8 := by cases t <;> decide
  have h := readsAs_wireNumber 1 (t.code * 32 + typeLengthCode ty)
  rw [(wireNumber_eq_iff (by decide)).mpr (by omega)] at h
  exact h

theorem control_fields : TagControl.ofCode ((t.code * 32 + typeLengthCode ty) / 32) = t ∧
    parseTypeLength ((t.code * 32 + typeLengthCode ty) % 32) = ty := by
  have hl := typeLengthCode_lt ty
  constructor
  · rw [show (t.code * 32 + typeLengthCode ty) / 32 = t.code by omega]
    cases t <;> rfl
  · rw [show (t.code * 32 + typeLengthCode ty) % 32 =
      typeLengthCode ty by omega, parseTypeLength_code]

end

variable {tag : Option TlvTag}

theorem readsAs_readTagType (h : ReadsAs (fun r => readTag r t) bs tag) :
    ReadsAs readTagType (controlBytes t ty ++ bs) (tag, ty) := by
  obtain ⟨hc, ht⟩ := control_fields t ty
  refine ReadsAs.bind (g := fun c r => do
    let p ← readTag r (TagControl.ofCode (c / 32))
    return ((p.1, parseTypeLength (c % 32)), p.2))
    (readsAs_controlBytes t ty) ?_
  rw [hc, ht]
  exact h.map (fun tag => (tag, ty))

theorem readsAs_anonymous (ty : TlvTypeLength) :
    ReadsAs readTagType (controlBytes .anonymous ty) (none, ty) := by
  have hn : ReadsAs (fun r => readTag r .anonymous) [] none := ReadsAs.pure none
  have ht : ReadsAs _ (controlBytes .anonymous ty ++ []) _ := readsAs_readTagType hn
  rwa [append_nil] at ht

/-- There is no reader for a tag that is fully qualified with 64 bits. -/
theorem readTagType_fullyQualified64 (o : Nat) (rest : List UInt8) :
    readTagType ⟨o, controlBytes .fullyQualified64 ty ++ rest⟩ =
      .error (.notImplemented "Unexpected tagControl 7") := by
  obtain ⟨hc, ht⟩ := control_fields .fullyQualified64 ty
  simp only [readTagType, readsAs_controlBytes .fullyQualified64 ty o rest, ok_bind, hc]
  rfl

/-- The bytes of a tag, and what the reader makes of them. -/
structure TagRoundTrip (ty : TlvTypeLength) (tag : Option TlvTag) (bs : List UInt8) :
    Prop where
  nonempty : 0 < bs.length
  writes : Writes (fun w => writeTag w ty tag) bs
  unreadable : IsFullyQualified64 tag → ∀ offset rest,
    readTagType ⟨offset, bs ++ rest⟩ = .error (.notImplemented "Unexpected tagControl 7")
  reads : ¬ IsFullyQualified64 tag → ∃ tag', (tag' = normalTag tag ↔ TagFits tag) ∧
    ReadsAs readTagType bs (tag', ty)

theorem length_controlBytes (t : TagControl) (ty : TlvTypeLength) :
    (controlBytes t ty).length = 1 :=
  length_encodeInt 1 _

theorem profile_roundTrip (ty : TlvTypeLength) (p id : Nat) :
    ∃ bs, TagRoundTrip ty (some ⟨some p, some id⟩) bs := by
  by_cases hp : p = matterCommonProfile
  · have hp32 : p < 2 ^ 32 := by
      rw [hp]
      decide
    by_cases h16 : fits16 id
    · refine ⟨controlBytes .commonProfile16 ty ++
        encodeInt 2 (roundInteger id), ?_, ?_, fun h => absurd hp h.1,
        fun _ => ⟨some ⟨some matterCommonProfile, some (wireNumber 2 id)⟩, ?_, ?_⟩⟩
      · simp [length_controlBytes]
      · intro w
        simp only [writeTag, Option.bind_some, if_pos hp, if_pos h16]
        exact congrArg Except.ok (congrArg DataWriter.mk (append_assoc ..))
      · have h0 : id / 2 ^ 16 % 2 ^ 16 = 0 := h16
        have := wireNumber_eq_iff (w := 2) (n := id) (by decide)
        simp only [normalTag, TagFits, hp, Option.some.injEq, TlvTag.mk.injEq, true_and, this]
        omega
      · exact readsAs_readTagType ((readsAs_wireNumber 2 id).map
          (fun id => some (TlvTag.mk (some matterCommonProfile) (some id))))
    · refine ⟨controlBytes .commonProfile32 ty ++
        encodeInt 4 (roundInteger id), ?_, ?_, fun h => absurd hp h.1,
        fun _ => ⟨some ⟨some matterCommonProfile, some (wireNumber 4 id)⟩, ?_, ?_⟩⟩
      · simp [length_controlBytes]
      · intro w
        simp only [writeTag, Option.bind_some, if_pos hp, if_neg h16]
        exact congrArg Except.ok (congrArg DataWriter.mk (append_assoc ..))
      · have := wireNumber_eq_iff (w := 4) (n := id) (by decide)
        simp only [normalTag, TagFits, hp, Option.some.injEq, TlvTag.mk.injEq, true_and, this]
        omega
      · exact readsAs_readTagType ((readsAs_wireNumber 4 id).map
          (fun id => some (TlvTag.mk (some matterCommonProfile) (some id))))
  · by_cases h16 : fits16 id
    · refine ⟨controlBytes .fullyQualified48 ty ++ (encodeInt 4 (roundInteger p) ++
          encodeInt 2 (roundInteger id)), ?_, ?_, fun h => absurd h16 h.2,
        fun _ => ⟨some ⟨some (wireNumber 4 p), some (wireNumber 2 id)⟩, ?_, ?_⟩⟩
      · simp [length_controlBytes]
      · intro w
        simp only [writeTag, Option.bind_some, if_neg hp, if_pos h16]
        refine congrArg Except.ok (congrArg DataWriter.mk ?_)
        rw [← append_assoc, ← append_assoc]
        rfl
      · have h0 : id / 2 ^ 16 % 2 ^ 16 = 0 := h16
        have h1 := wireNumber_eq_iff (w := 4) (n := p) (by decide)
        have h2 := wireNumber_eq_iff (w := 2) (n := id) (by decide)
        simp only [normalTag, TagFits, Option.some.injEq, TlvTag.mk.injEq, h1, h2]
        omega
      · refine readsAs_readTagType ?_
        exact ReadsAs.bind (g := fun p r => do
          let q ← r.readUInt16
          return (some (TlvTag.mk (some p) (some q.1)), q.2)) (readsAs_wireNumber 4 p)
          ((readsAs_wireNumber 2 id).map
            (fun id => some (TlvTag.mk (some (wireNumber 4 p)) (some id))))
    · refine ⟨controlBytes .fullyQualified64 ty ++ (encodeInt 4 (roundInteger p) ++
          encodeInt 4 (roundInteger id)), ?_, ?_, fun _ => ?_, fun h => absurd ⟨hp, h16⟩ h⟩
      · simp [length_controlBytes]
      · intro w
        simp only [writeTag, Option.bind_some, if_neg hp, if_neg h16]
        refine congrArg Except.ok (congrArg DataWriter.mk ?_)
        rw [← append_assoc, ← append_assoc]
        rfl
      · intro off rest
        exact readTagType_fullyQualified64 off _

theorem tag_roundTrip (h : TagAccepted tag) (ty : TlvTypeLength) :
    ∃ bs, TagRoundTrip ty tag bs := by
  have ha := readsAs_anonymous ty
  rcases tag with _ | ⟨_ | p, _ | id⟩
  · exact ⟨controlBytes .anonymous ty, by simp [length_controlBytes], fun w => rfl,
      fun hf => absurd hf id, fun _ => ⟨none, by simp [normalTag, TagFits], ha⟩⟩
  · exact ⟨controlBytes .anonymous ty, by simp [length_controlBytes], fun w => rfl,
      fun hf => absurd hf id, fun _ => ⟨none, by simp [normalTag, TagFits], ha⟩⟩
  · refine ⟨controlBytes .contextSpecific ty ++
      encodeInt 1 (roundInteger id), ?_, ?_, fun hf => absurd hf (fun hf => hf),
      fun _ => ⟨some ⟨none, some (wireNumber 1 id)⟩, ?_, ?_⟩⟩
    · simp [length_controlBytes]
    · intro w
      exact congrArg Except.ok (congrArg DataWriter.mk (append_assoc ..))
    · have := wireNumber_eq_iff (w := 1) (n := id) (by decide)
      simp only [normalTag, TagFits, Option.some.injEq, TlvTag.mk.injEq, true_and, this]
      omega
    · exact readsAs_readTagType ((readsAs_wireNumber 1 id).map
        (fun id => some (TlvTag.mk none (some id))))
  · cases h
  · exact profile_roundTrip ty p id

end MatterJs.Tlv
