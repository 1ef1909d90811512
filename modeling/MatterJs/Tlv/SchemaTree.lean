import Mathlib.Data.List.Forall2
import MatterJs.Tlv.SchemaCodec
import MatterJs.Tlv.Tree

/-!
# Schemas over trees

What a schema makes of a tree of elements. A reader that goes through the tree
returns exactly this, whatever it reads from.
-/
namespace MatterJs.Tlv

open Schema Tree

def Tree.value : Tree → Option TlvValue
  | .leaf e => e.value
  | .node .. => none

/-- The elements of an array, each without a tag. -/
def decodeTreeArray (decode : Tree → Except TlvError Value) : List Tree → List Value →
    Except TlvError (List Value)
  | [], result => .ok result
  | t :: ts, result =>
    if t.tag ≠ none then .error (.unexpectedData "Array element tags should be anonymous.")
    else do
      let element ← decode t
      decodeTreeArray decode ts (result ++ [element])

/-- The elements of an object, each with an id that selects its field. -/
def decodeTreeObject (allowProtocolSpecificTags : Bool)
    (fields : List (FieldDecoder (Tree → Except TlvError Value))) : List Tree →
    List (String × Value) → Except TlvError (List (String × Value))
  | [], result => .ok result
  | t :: ts, result => do
    let id ← checkObjectTag allowProtocolSpecificTags t.tag
    match fieldById fields id with
    | none => decodeTreeObject allowProtocolSpecificTags fields ts result
    | some field => do
      let decoded ← field.decode t
      decodeTreeObject allowProtocolSpecificTags fields ts
        (addDecoded result field.name field.repeated decoded)

mutual

def Schema.decodeTree (relax : Bool) : Schema → Tree → Except TlvError Value
  | .boolean, t =>
    match t.typeLength with
    | .boolean value => .ok (.boolean value)
    | typeLength => .error (unexpectedType typeLength)
  | .numeric n, t => do
    let relaxed ← n.checkType relax t.typeLength
    n.finish relaxed t.value
  | .float _, t =>
    match t.typeLength with
    | .float _ => .ok (.ofPrimitive t.value)
    | typeLength =>
      let type := typeLength.type
      .error (.unexpectedData s!"Unexpected type {type}, was expecting 10.")
  | .string s, t =>
    match s.type, t.typeLength with
    | .byteString, .byteString _ | .utf8String, .utf8String _ => s.finish t.value
    | _, typeLength => .error (unexpectedType typeLength)
  | .nullable schema, t =>
    match t.typeLength with
    | .null => .ok .null
    | _ => do
      let value ← schema.decodeTree relax t
      return if isNullEquivalent schema value then .null else value
  | .array elementSchema _ _, t =>
    match t with
    | .node _ .array children endTag => do
      let elements ← decodeTreeArray (fun t => elementSchema.decodeTree relax t) children []
      if endTag ≠ none then .error (.unexpectedData "Array element tags should be anonymous.")
      else .ok (.array elements)
    | t =>
      let type := t.typeLength.type
      .error (.unexpectedData s!"Unexpected type {type}, expected Array (22).")
  | .object settings fieldDefinitions, t =>
    if t.typeLength = (if settings.isList then .list else .struct) then do
      let children := match t with
        | .node _ _ children _ => children
        | .leaf _ => []
      let result ← decodeTreeObject settings.allowProtocolSpecificTags
        (fieldTreeDecoders relax fieldDefinitions) children []
      return .object (applyFallbacks fieldDefinitions result)
    else
      let type := t.typeLength.type
      let expected := if settings.isList then 0x17 else 0x15
      .error (.unexpectedData s!"Unexpected type {type} (expected {expected}).")
  | .any, t => .ok (.stream (t.withTag none).stream)
  | .void, _ | .noArguments, _ =>
    .error (.internal "decodeTlvInternalValue should never be called")
  | .wrapper underlyingSchema _ unwrap, t => do
    let value ← underlyingSchema.decodeTree relax t
    unwrap value

def fieldTreeDecoders (relax : Bool) : List (Field Schema) →
    List (FieldDecoder (Tree → Except TlvError Value))
  | [] => []
  | ⟨name, id, schema, _, repeated, _, _, _⟩ :: fields =>
    ⟨name, id, repeated, fun t => schema.decodeTree relax t⟩ :: fieldTreeDecoders relax fields

end

section Yields

variable {ρ : Type} {R : TlvReader ρ} {r r₁ r' : ρ}
  {fs : List (FieldDecoder (ρ → TlvTypeLength → Except TlvError (Value × ρ)))}

/-- The result of a tree for a reader that is behind it then. -/
def thenAt {α : Type} (result : Except TlvError α) (r : ρ) : Except TlvError (α × ρ) :=
  result >>= fun a => .ok (a, r)

/-- A decoder of element values does with every tree what the tree says. -/
def Follows (R : TlvReader ρ) (decode : ρ → TlvTypeLength → Except TlvError (Value × ρ))
    (decodeTree : Tree → Except TlvError Value) : Prop :=
  ∀ t r r', YieldsValue R t r r' → NoReserved t.stream →
    decode r t.typeLength = thenAt (decodeTree t) r'

/-- The types whose value stands behind the tag. -/
def TlvTypeLength.HasValue : TlvTypeLength → Prop
  | .signedInt _ | .unsignedInt _ | .float _ | .utf8String _ | .byteString _ => True
  | _ => False

theorem readPrimitive_of_yields {t : Tree} (h : YieldsValue R t r r')
    (hv : t.typeLength.HasValue) : R.readPrimitive r t.typeLength = .ok (t.value, r') := by
  cases t with
  | leaf e =>
    obtain ⟨tag, typeLength, value⟩ := e
    cases typeLength with
    | signedInt le | unsignedInt le | float le | utf8String le
    | byteString le => exact h
    | _ => cases hv
  | node tag kind c et => cases kind <;> cases hv

/-- Behind a boolean or a null there is nothing to read. -/
theorem reader_of_yields {t : Tree} (h : YieldsValue R t r r')
    (ht : t.typeLength = .null ∨ ∃ b, t.typeLength = .boolean b) : r' = r := by
  cases t with
  | leaf e =>
    obtain ⟨tag, typeLength, value⟩ := e
    rcases ht with ht | ⟨b, ht⟩ <;> obtain rfl : typeLength = _ := ht
    · exact h.2
    · exact h.2.2
  | node tag kind c et => cases kind <;> rcases ht with ht | ⟨b, ht⟩ <;> cases ht

theorem checkType_hasValue {n : NumericSchema} {l b : Bool} {t : TlvTypeLength}
    (h : n.checkType l t = .ok b) : t.HasValue := by
  unfold NumericSchema.checkType at h
  cases t <;> cases n.type <;> simp_all [TlvTypeLength.HasValue]

variable {et : Option TlvTag}

/-- An array closed by a tagged end is refused like one with tagged elements. -/
theorem decodeArray_of_yields {dc : ρ → TlvTypeLength → Except TlvError (Value × ρ)}
    {d : Tree → Except TlvError Value} (hd : Follows R dc d)
    {f : Nat} (he : R.readTagType r₁ = .ok ((et, .endOfContainer), r'))
    (ts : List Tree) (h : YieldsAll R ts r r₁) (hn : NoReserved (streams ts))
    (hf : ts.length + 1 ≤ f) (c : List Value) : decodeArray R dc f r c =
      decodeTreeArray d ts c >>= fun s =>
        if et ≠ none then .error (.unexpectedData "Array element tags should be anonymous.")
        else .ok (s, r') := by
  induction ts generalizing r f c with
  | nil =>
    obtain ⟨f, rfl⟩ : ∃ n, f = n + 1 := ⟨f - 1, by omega⟩
    obtain rfl : r = r₁ := h
    simp [decodeArray, he, decodeTreeArray]
  | cons t ts ih =>
    obtain ⟨f, rfl⟩ : ∃ n, f = n + 1 := ⟨f - 1, by omega⟩
    obtain ⟨r₂, r₃, hend, ht, hv, hs⟩ := h
    obtain ⟨hn1, hn2⟩ := NoReserved.append.mp hn
    simp only [decodeArray, ht, ok_bind, decodeTreeArray]
    by_cases ha : t.tag = none
    · simp only [ha, ne_eq, not_true_eq_false, if_false, if_neg hend, hd t r₂ r₃ hv hn1, thenAt]
      cases hdt : d t with
      | error e => simp
      | ok element =>
        exact ih hs hn2 (by simpa using hf) (c ++ [element])
    · simp [ha]

/-- Two tables of fields that agree on everything but the form of their decoders. -/
def FieldFollows (R : TlvReader ρ)
    (f : FieldDecoder (ρ → TlvTypeLength → Except TlvError (Value × ρ)))
    (g : FieldDecoder (Tree → Except TlvError Value)) : Prop :=
  f.name = g.name ∧ f.id = g.id ∧ f.repeated = g.repeated ∧ Follows R f.decode g.decode

variable {s : List (FieldDecoder (Tree → Except TlvError Value))}

theorem fieldById_follows (h : List.Forall₂ (FieldFollows R) fs s) (id : Nat) :
    (fieldById fs id = none ∧ fieldById s id = none) ∨
      ∃ f g, fieldById fs id = some f ∧ fieldById s id = some g ∧ FieldFollows R f g := by
  induction h with
  | nil => exact .inl ⟨rfl, rfl⟩
  | @cons f g fs s hfg _ ih =>
    simp only [fieldById]
    rcases ih with ⟨hf, hg⟩ | ⟨f', g', hf, hg, he⟩
    · rw [hf, hg, hfg.2.1]
      by_cases hi : g.id = id
      · exact .inr ⟨f, g, if_pos hi, if_pos hi, hfg⟩
      · exact .inl ⟨if_neg hi, if_neg hi⟩
    · rw [hf, hg]
      exact .inr ⟨f', g', rfl, rfl, he⟩

theorem decodeObject_of_yields (hR : R.Progresses) (hd : List.Forall₂ (FieldFollows R) fs s)
    {l : Bool} {fu : Nat} (he : R.readTagType r₁ = .ok ((et, .endOfContainer), r')) (ts : List Tree)
    (h : YieldsAll R ts r r₁) (hn : NoReserved (streams ts)) (hf : ts.length + 1 ≤ fu)
    (a : List (String × Value)) : decodeObject R l fs fu r a =
    thenAt (decodeTreeObject l s ts a) r' := by
  induction ts generalizing r fu a with
  | nil =>
    obtain ⟨fu, rfl⟩ : ∃ n, fu = n + 1 := ⟨fu - 1, by omega⟩
    obtain rfl : r = r₁ := h
    simp [decodeObject, he, decodeTreeObject, thenAt]
  | cons t ts ih =>
    obtain ⟨fu, rfl⟩ : ∃ n, fu = n + 1 := ⟨fu - 1, by omega⟩
    obtain ⟨r₂, r₃, hend, ht, hv, hrs⟩ := h
    obtain ⟨hn1, hn2⟩ := NoReserved.append.mp hn
    have hf' : ts.length + 1 ≤ fu := by simpa using hf
    simp only [decodeObject, ht, ok_bind, decodeTreeObject, if_neg hend]
    cases hi : checkObjectTag l t.tag with
    | error e => simp [thenAt]
    | ok id =>
      simp only [ok_bind]
      rcases fieldById_follows hd id with ⟨hs, hg⟩ | ⟨f, g, hs, hg, hm, -, hp, hl⟩
      · simp only [hs, hg, anyValue_of_yields hR hv hn1, ok_bind]
        exact ih hrs hn2 hf' a
      · simp only [hs, hg, hl t r₂ r₃ hv hn1]
        cases hdt : g.decode t with
        | error e => simp [thenAt]
        | ok d =>
          simp only [thenAt, ok_bind, hm, hp]
          exact ih hrs hn2 hf' _

theorem length_le_streams (ts : List Tree) : ts.length ≤ (streams ts).length := by
  induction ts with
  | nil => exact Nat.zero_le _
  | cons t ts ih =>
    have := t.stream_ne_nil
    simp only [streams, List.length_cons, List.length_append]
    omega

/-- The bound of a loop covers the elements of the container. -/
theorem children_fuel (hR : R.Progresses) {ts : List Tree} (h : YieldsAll R ts r r₁)
    {e : Option TlvTag} (he : R.readTagType r₁ = .ok ((e, .endOfContainer), r')) :
    ts.length + 1 ≤ R.remaining r + 1 := by
  have := yieldsAll_length hR ts h
  have := hR.tag he
  have := length_le_streams ts
  omega

mutual

/-- A schema decodes what its reader yields as it decodes the tree. -/
theorem decodeValue_of_yields (hR : R.Progresses) : (s : Schema) →
    Follows R (fun r l => s.decodeTlvInternalValue R r l)
      (fun t => s.decodeTree R.relaxNumberTypeChecks t)
  | .boolean, t, r, r', h, hn => by
    simp only [Schema.decodeTree]
    cases ht : t.typeLength with
    | boolean b =>
      obtain rfl := reader_of_yields h (.inr ⟨b, ht⟩)
      rfl
    | _ => rfl
  | .numeric n, t, r, r', h, hn => by
    simp only [decodeTlvInternalValue, Schema.decodeTree, thenAt]
    cases hc : n.checkType R.relaxNumberTypeChecks t.typeLength with
    | error e => simp
    | ok a =>
      simp only [ok_bind, readPrimitive_of_yields h (checkType_hasValue hc)]
      rfl
  | .float f, t, r, r', h, hn => by
    have hv := readPrimitive_of_yields h
    simp only [decodeTlvInternalValue, Schema.decodeTree]
    cases ht : t.typeLength with
    | float length =>
      rw [ht] at hv
      simp only [hv trivial, ok_bind]
      rfl
    | _ => rfl
  | .string s, t, r, r', h, hn => by
    have hv := readPrimitive_of_yields h
    simp only [decodeTlvInternalValue, Schema.decodeTree]
    cases hs : s.type <;> cases ht : t.typeLength <;> first
      | rfl
      | (rw [ht] at hv
         simp only [hv trivial, ok_bind]
         rfl)
  | .nullable s, t, r, r', h, hn => by
    have ih := decodeValue_of_yields hR s t r r' h hn
    simp only [decodeTlvInternalValue, Schema.decodeTree]
    by_cases ht : t.typeLength = .null
    · obtain rfl := reader_of_yields h (.inl ht)
      simp only [ht]
      rfl
    · simp only [ih, thenAt]
      cases s.decodeTree R.relaxNumberTypeChecks t <;> cases t.typeLength <;> simp_all
  | .array s min max, t, r, r', h, hn => by
    have ih := decodeValue_of_yields hR s
    cases t with
    | leaf e =>
      obtain ⟨tag, l, value⟩ := e
      cases l <;> first | rfl | cases h
    | node tag kind children endTag =>
      obtain ⟨r₁, hc, he⟩ := h
      have hh : NoReserved (streams children) := fun e hm => hn e (by simp [stream, hm])
      cases kind with
      | array =>
        simp only [decodeTlvInternalValue, Schema.decodeTree, typeLength, ContainerKind.typeLength,
          decodeArray_of_yields ih he children hc hh (children_fuel hR hc he)]
        cases decodeTreeArray (fun t => s.decodeTree R.relaxNumberTypeChecks t) children [] with
        | error e => rfl
        | ok elements => by_cases ha : endTag = none <;> simp [ha, thenAt, pure, Except.pure]
      | _ => rfl
  | .object settings fields, t, r, r', h, hn => by
    have ih := fieldDecoders_follow hR fields
    simp only [decodeTlvInternalValue, Schema.decodeTree]
    by_cases ht : t.typeLength = if settings.isList then .list else .struct
    · simp only [if_pos ht]
      cases t with
      | leaf e =>
        obtain ⟨tag, l, value⟩ := e
        have hc : l = .list ∨ l = .struct := by
          rw [show l = _ from ht]
          split_ifs <;> simp
        rcases hc with rfl | rfl <;> cases h
      | node tag kind children endTag =>
        obtain ⟨r₁, hc, he⟩ := h
        have hh : NoReserved (streams children) := fun e hm => hn e (by simp [stream, hm])
        simp only [decodeObject_of_yields hR ih he children hc hh (children_fuel hR hc he)]
        cases decodeTreeObject settings.allowProtocolSpecificTags
          (fieldTreeDecoders R.relaxNumberTypeChecks fields) children [] <;> rfl
    · simp only [if_neg ht]
      rfl
  | .any, t, r, r', h, hn => by
    simp only [decodeTlvInternalValue, thenAt, anyValue_of_yields hR h hn, ok_bind]
    rfl
  | .void, t, r, r', h, hn => rfl
  | .noArguments, t, r, r', h, hn => rfl
  | .wrapper s wrap un, t, r, r', h, hn => by
    have ih := decodeValue_of_yields hR s t r r' h hn
    simp only [decodeTlvInternalValue, Schema.decodeTree, ih, thenAt]
    cases s.decodeTree R.relaxNumberTypeChecks t <;> rfl

theorem fieldDecoders_follow (hR : R.Progresses) : (f : List (Field Schema)) →
    List.Forall₂ (FieldFollows R) (fieldDecoders R f)
      (fieldTreeDecoders R.relaxNumberTypeChecks f)
  | [] => .nil
  | ⟨_, _, schema, _, _, _, _, _⟩ :: f =>
    .cons ⟨rfl, rfl, rfl, decodeValue_of_yields hR schema⟩
      (fieldDecoders_follow hR f)

end

end Yields

end MatterJs.Tlv
