import MatterJs.Foundation.InsertionMap
import Mathlib.Data.List.Induction
import MatterJs.Foundation.JsInt32

/-!
# Bitmaps in a number

The masks and shifts are signed: bit 31 is the sign, and a length of 32 makes an empty mask.
-/
namespace MatterJs.Schema

open JsInt32 InsertionMap List

inductive BitRangeType
  | flag
  | number
  | enum
  deriving DecidableEq

structure BitRange where
  type : BitRangeType
  offset : Nat
  length : Nat

inductive BitValue
  | flag (value : Bool)
  | number (value : Int)

/-- An object, as the values of its properties. -/
abbrev Bits := String → Option BitValue

abbrev BitSchema := List (String × BitRange)

def truthy : Option BitValue → Bool
  | some (.flag value) => value
  | some (.number value) => value ≠ 0
  | none => false

/-- `ToNumber`, with 0 for `NaN`: the operators take them for the same. -/
def toNumber : Option BitValue → Int
  | some (.flag value) => if value then 1 else 0
  | some (.number value) => value
  | none => 0

def BitRange.mask (r : BitRange) : Int := shiftLeft (shiftLeft 1 r.length - 1) r.offset

def encodeField (value : Bits) (result : Int) (field : String × BitRange) : Int :=
  let (name, r) := field
  match r.type with
  | .flag => if truthy (value name) then bitOr result r.mask else result
  | .enum | .number => bitOr result (shiftLeft (toNumber (value name)) r.offset)

def encodeInternal (schema : BitSchema) (value : Bits) : Int :=
  schema.foldl (encodeField value) 0

def BitRange.decode (r : BitRange) (bitmap : Int) : BitValue :=
  if r.type = .flag then .flag (bitAnd bitmap r.mask ≠ 0)
  else .number (shiftRight (bitAnd bitmap r.mask) r.offset)

def decodeInternal (schema : BitSchema) (bitmap : Int) : Bits :=
  fun name => (get schema name).map (·.decode bitmap)

/-! ### Coherent schemas -/

namespace BitRange

variable (r : BitRange)

def covers (i : Nat) : Bool := r.offset ≤ i && i < r.offset + r.length

/-- Within bits 0 to 31. A flag has one bit. -/
structure InRange : Prop where
  pos : 0 < r.length
  le : r.offset + r.length ≤ 32
  flag : r.type = .flag → r.length = 1

/-- The values of the type of the range that its length has room for. -/
def Fits : BitValue → Prop
  | .flag _ => r.type = .flag
  | .number value => r.type ≠ .flag ∧ 0 ≤ value ∧ value < 2 ^ r.length

/-- The value leaves bit 31 clear. -/
def ClearsSign : BitValue → Prop
  | .flag value => value → r.offset < 31
  | .number value => value < 2 ^ (31 - r.offset)

/-- A range of all 32 bits is read as 0. -/
def Survives (v : BitValue) : Prop := r.ClearsSign v ∧ (r.length = 32 → v = .number 0)

end BitRange

structure Coherent (schema : BitSchema) : Prop where
  names : (schema.map Prod.fst).Nodup
  inRange : ∀ e ∈ schema, e.2.InRange
  disjoint : ∀ e ∈ schema, ∀ e' ∈ schema, ∀ i, e.2.covers i → e'.2.covers i → e = e'

/-- The object has a fitting value for each field and no other property. -/
def Fits (schema : BitSchema) (value : Bits) : Prop :=
  (∀ e ∈ schema, ∃ v, value e.1 = some v ∧ e.2.Fits v) ∧
    ∀ name ∉ schema.map Prod.fst, value name = none

def declaredBits (schema : BitSchema) : Nat :=
  schema.foldl (fun bits e => bits ||| (2 ^ e.2.length - 1) <<< e.2.offset) 0

variable {s : BitSchema} {b : Bits} {r : BitRange} {v : BitValue} {i : Nat} {x : Int}

/-! ### Bits of a range -/

/-- What `encodeInternal` adds for a range. -/
def BitRange.bits (r : BitRange) (v : Option BitValue) : Int :=
  match r.type with
  | .flag => if truthy v then r.mask else 0
  | .enum | .number => shiftLeft (toNumber v) r.offset

theorem BitRange.bits_flag (h : r.type = .flag) (v : Option BitValue) :
    r.bits v = if truthy v then r.mask else 0 := by
  simp [bits, h]

theorem BitRange.bits_number (h : r.type ≠ .flag) (v : Option BitValue) :
    r.bits v = shiftLeft (toNumber v) r.offset := by
  unfold bits
  split
  · contradiction
  all_goals rfl

theorem testBit_of_lt {m k : Nat} (h : m < 2 ^ k) (hk : k ≤ i) : m.testBit i = false :=
  Nat.testBit_lt_two_pow (Nat.lt_of_lt_of_le h (Nat.pow_le_pow_right (by decide) hk))

/-- Bit `i` of a value that stands at the offset of its range. -/
def BitRange.bitOf (r : BitRange) (i : Nat) : BitValue → Bool
  | .flag value => value
  | .number value => value.toNat.testBit (i - r.offset)

theorem bit_ones : ∀ l ≤ 32, ∀ i < 32, bit (shiftLeft 1 (l : Nat) - 1) i =
    (decide (l ≠ 32) && decide (i < l)) := by
  decide +kernel

theorem BitRange.clearsSign_natCast {m : Nat} :
    r.ClearsSign (.number m) ↔ m < 2 ^ (31 - r.offset) := by
  rw [ClearsSign]
  norm_cast

namespace BitRange.InRange

variable (h : r.InRange)
include h

theorem offset_lt : r.offset < 32 := by
  have := h.pos
  have := h.le
  omega

theorem bit_mask (hi : i < 32) : bit r.mask i = (decide (r.length ≠ 32) && r.covers i) := by
  have := h.le
  rw [mask, bit_shiftLeft _ h.offset_lt hi, bit_ones _ (by omega) _ (by omega), covers]
  grind

theorem mask_flag (ht : r.type = .flag) : r.mask = shiftLeft 1 r.offset := by
  rw [mask, h.flag ht]
  rfl

/-- A fitting value adds the bits it is made of. -/
theorem bit_bits (hv : r.Fits v) (hi : i < 32) :
    bit (r.bits (some v)) i = (r.covers i && r.bitOf i v) := by
  have ho := h.offset_lt
  cases v with
  | flag b =>
    have h1 := h.flag hv
    cases b <;> simp [bits_flag hv, truthy, h.bit_mask hi, h1, bitOf]
  | number b =>
    obtain ⟨ht, h0, hl⟩ := hv
    obtain ⟨m, rfl⟩ := Int.eq_ofNat_of_zero_le h0
    have hm : m < 2 ^ r.length := by exact_mod_cast hl
    rw [bits_number ht, toNumber, bit_shiftLeft _ ho hi, bit_natCast _ (by omega), covers, bitOf,
      Int.toNat_natCast]
    by_cases hc : i < r.offset + r.length
    · simp [hc]
    · simp [hc, testBit_of_lt hm (show r.length ≤ i - r.offset by omega)]

/-- A decoded range adds the bits it was decoded from, unless it is the whole number. -/
theorem bit_decode (x : Int) (hi : i < 32) :
    bit (r.bits (some (r.decode x))) i = (bit x i && (decide (r.length ≠ 32) && r.covers i)) := by
  have ho := h.offset_lt
  unfold decode
  split_ifs with ht
  · have hc : bitAnd x r.mask ≠ 0 ↔ bit x r.offset := by
      rw [h.mask_flag ht, bitAnd_one_shiftLeft_ne_zero x ho]
    have h1 := h.flag ht
    have hv : r.covers i ↔ i = r.offset := by
      simp only [covers, h1, Bool.and_eq_true, decide_eq_true_eq]
      omega
    rw [bits_flag ht]
    by_cases he : i = r.offset
    · subst he
      by_cases hb : bit x r.offset <;> simp_all [truthy, h.bit_mask]
    · split_ifs <;> simp_all [h.bit_mask]
  · rw [bits_number ht, toNumber, bit_shiftLeft _ ho hi, bit_shiftRight _ ho (by omega), bit_bitAnd]
    by_cases hl : r.offset ≤ i
    · rw [if_pos (by omega), Nat.add_sub_cancel' hl, h.bit_mask hi]
      simp [hl]
    · simp [covers, hl]

/-- A value comes back from a bitmap that has its bits and not the sign. -/
theorem decode_eq (hv : r.Fits v) (hs : r.Survives v) (hx : bit x 31 = false)
    (hb : ∀ i < 32, r.covers i → bit x i = r.bitOf i v) : r.decode x = v := by
  have ho := h.offset_lt
  cases v with
  | flag b =>
    have h1 := h.flag hv
    have hc : bitAnd x r.mask ≠ 0 ↔ b := by
      rw [h.mask_flag hv, bitAnd_one_shiftLeft_ne_zero x ho, hb _ ho (by simp [covers, h1]), bitOf]
    have ht : r.type = .flag := hv
    simp [decode, ht, hc]
  | number b =>
    obtain ⟨ht, h0, hlt⟩ := hv
    obtain ⟨m, rfl⟩ := Int.eq_ofNat_of_zero_le h0
    have hm : m < 2 ^ r.length := by exact_mod_cast hlt
    have hms : m < 2 ^ (31 - r.offset) := clearsSign_natCast.mp hs.1
    have hm31 : m < 2 ^ 31 := Nat.lt_of_lt_of_le hms (Nat.pow_le_pow_right (by decide) (by omega))
    rw [decode, if_neg ht]
    congr 1
    apply eq_natCast (toInt32_toInt _ ▸ rfl) hm31
    intro i hi
    rw [bit_shiftRight _ ho hi, bit_bitAnd, h.bit_mask (by split_ifs <;> omega)]
    split_ifs with hu
    · by_cases hi' : i < r.length
      · rw [hb _ hu (by simp [covers, hi']), bitOf, Int.toNat_natCast, Nat.add_sub_cancel_left]
        by_cases h32 : r.length = 32
        · obtain rfl : m = 0 := by simpa using hs.2 h32
          simp
        · simp [h32, covers, hi']
      · simp [covers, hi', testBit_of_lt hm (Nat.le_of_not_lt hi')]
    · simp [hx, testBit_of_lt hms (show 31 - r.offset ≤ i by omega)]

/-- The mask of all 32 bits is 0. -/
theorem decode_whole (h32 : r.length = 32) (x : Int) : r.decode x = .number 0 := by
  have ht : r.type ≠ .flag := fun ht => by simp [h.flag ht] at h32
  have ho : r.offset = 0 := by
    have := h.le
    omega
  have hm : r.mask = 0 := by
    rw [mask, h32, ho]
    rfl
  have hz : bitAnd x 0 = 0 := by simp [bitAnd, toInt32]
  rw [decode, if_neg ht, hm, hz, ho]
  rfl

theorem clearsSign_iff (hv : r.Fits v) :
    r.ClearsSign v ↔ (r.covers 31 && r.bitOf 31 v) = false := by
  have hl := h.le
  cases v with
  | flag b =>
    have h1 := h.flag hv
    cases b
    · simp [ClearsSign, bitOf]
    · simp [ClearsSign, covers, bitOf, h1]
      omega
  | number b =>
    obtain ⟨ht, h0, hlt⟩ := hv
    obtain ⟨m, rfl⟩ := Int.eq_ofNat_of_zero_le h0
    have hm : m < 2 ^ r.length := by exact_mod_cast hlt
    rw [bitOf, Int.toNat_natCast]
    constructor
    · intro hs
      have hms : m < 2 ^ (31 - r.offset) := clearsSign_natCast.mp hs
      rw [testBit_of_lt hms (Nat.le_refl _), Bool.and_false]
    · intro hb
      refine clearsSign_natCast.mpr (Nat.lt_pow_two_of_testBit _ fun i hi => ?_)
      by_cases hc : i < r.length
      · obtain rfl : i = 31 - r.offset := by omega
        simpa [covers, show r.offset ≤ 31 by omega, show 31 < r.offset + r.length by omega] using hb
      · exact testBit_of_lt hm (by omega)

end BitRange.InRange

/-! ### Bits of a schema -/

theorem bit_encodeInternal (s : BitSchema) (b : Bits) (i : Nat) :
    bit (encodeInternal s b) i = s.any (fun e => bit (e.2.bits (b e.1)) i) := by
  unfold encodeInternal
  induction s using List.reverseRecOn with
  | nil => simp
  | append_singleton s e ih =>
    rw [foldl_append, any_append, ← ih]
    simp only [foldl_cons, foldl_nil, encodeField, any_cons, any_nil, BitRange.bits]
    split
    · split_ifs <;> simp
    all_goals simp

theorem signed_encodeInternal (s : BitSchema) (b : Bits) :
    (toInt32 (encodeInternal s b)).toInt = encodeInternal s b := by
  unfold encodeInternal
  induction s using List.reverseRecOn with
  | nil => rfl
  | append_singleton s e ih =>
    simp only [foldl_append, foldl_cons, foldl_nil, encodeField]
    split
    · split_ifs
      · rw [bitOr, toInt32_toInt]
      · exact ih
    all_goals rw [bitOr, toInt32_toInt]

theorem testBit_declaredBits (s : BitSchema) (i : Nat) :
    (declaredBits s).testBit i = s.any (fun e => e.2.covers i) := by
  unfold declaredBits
  induction s using List.reverseRecOn with
  | nil => simp
  | append_singleton s e ih =>
    rw [foldl_append, foldl_cons, foldl_nil, Nat.testBit_or, ih, any_append, Nat.testBit_shiftLeft,
      Nat.testBit_two_pow_sub_one]
    simp only [any_cons, any_nil, BitRange.covers]
    grind

namespace Coherent

variable (h : Coherent s)
include h

/-- The bits of a range are those of its own value. -/
theorem bit_own (hv : Fits s b) {e : String × BitRange} (he : e ∈ s) (hb : b e.1 = some v)
    (hi : i < 32) (hc : e.2.covers i) : bit (encodeInternal s b) i = e.2.bitOf i v := by
  obtain ⟨v', hb', hf⟩ := hv.1 e he
  obtain rfl : v = v' := Option.some.inj (hb.symm.trans hb')
  have ho : bit (e.2.bits (b e.1)) i = e.2.bitOf i v := by
    rw [hb, (h.inRange e he).bit_bits hf hi, hc, Bool.true_and]
  rw [bit_encodeInternal, ← ho, Bool.eq_iff_iff, any_eq_true]
  constructor
  · rintro ⟨e', he', ht⟩
    obtain ⟨w, hw, hf'⟩ := hv.1 e' he'
    have hc' := ht
    rw [hw, (h.inRange e' he').bit_bits hf' hi, Bool.and_eq_true] at hc'
    rwa [h.disjoint e he e' he' i hc hc'.1]
  · exact fun ht => ⟨e, he, ht⟩

theorem bit_sign (hv : Fits s b) : bit (encodeInternal s b) 31 = false ↔
    ∀ e ∈ s, ∀ v, b e.1 = some v → e.2.ClearsSign v := by
  rw [bit_encodeInternal, any_eq_false]
  refine forall₂_congr fun e he => ?_
  obtain ⟨v, hb, hf⟩ := hv.1 e he
  have hr := h.inRange e he
  simp [hb, hr.bit_bits hf, hr.clearsSign_iff hf]

theorem bit_recoded (b : Nat) (hi : i < 32) : bit (encodeInternal s (decodeInternal s b)) i =
      s.any (fun e => b.testBit i && (decide (e.2.length ≠ 32) && e.2.covers i)) := by
  rw [bit_encodeInternal, Bool.eq_iff_iff, any_eq_true, any_eq_true]
  refine exists_congr fun e => and_congr_right fun he => ?_
  rw [decodeInternal, get_of_mem h.names he, Option.map_some, (h.inRange e he).bit_decode _ hi,
    bit_natCast _ hi]

end Coherent

/-- Values and bitmaps come back exactly where they have no part in bit 31, and where a range of
all 32 bits holds 0. -/
theorem bitmap_round_trip {schema : BitSchema} (h : Coherent schema) :
    (∀ value, Fits schema value →
      ((0 ≤ encodeInternal schema value ∧ encodeInternal schema value < 2 ^ 32 ∧
        decodeInternal schema (encodeInternal schema value) = value) ↔
      ∀ e ∈ schema, ∀ v, value e.1 = some v → e.2.Survives v)) ∧ ∀ bitmap : Nat, bitmap < 2 ^ 32 →
      (encodeInternal schema (decodeInternal schema bitmap) =
        ((bitmap &&& declaredBits schema : Nat) : Int) ↔
      ∀ e ∈ schema, (e.2.covers 31 = true → bitmap.testBit 31 = false) ∧
        (e.2.length = 32 → bitmap = 0)) := by
  constructor
  · intro value hv
    have hx := signed_encodeInternal schema value
    rw [nonneg_iff hx, h.bit_sign hv]
    constructor
    · rintro ⟨hs, -, hd⟩ e he v hb
      refine ⟨hs e he v hb, fun h32 => ?_⟩
      have hd := congrFun hd e.1
      rw [hb, decodeInternal, get_of_mem h.names he, Option.map_some,
        (h.inRange e he).decode_whole h32] at hd
      exact (Option.some.inj hd).symm
    · intro hs
      have hc := fun e he v hb => (hs e he v hb).1
      refine ⟨hc, ?_, ?_⟩
      · rw [← hx]
        exact Int.lt_of_lt_of_le (BitVec.toInt_lt) (by decide)
      · funext name
        by_cases hn : name ∈ schema.map Prod.fst
        · obtain ⟨e, he, rfl⟩ := mem_map.mp hn
          obtain ⟨v, hb, hf⟩ := hv.1 e he
          rw [decodeInternal, get_of_mem h.names he, Option.map_some, hb,
            (h.inRange e he).decode_eq hf (hs e he v hb) ((h.bit_sign hv).mpr hc)
              fun i hi ho => h.bit_own hv he hb hi ho]
        · have hg : get schema name = none := by
            simpa [mem_keys_iff, Option.eq_none_iff_forall_ne_some] using hn
          rw [decodeInternal, hg, hv.2 name hn, Option.map_none]
  · intro bitmap hl
    have hx := signed_encodeInternal schema (decodeInternal schema bitmap)
    constructor
    · intro hq e he
      have hb : ∀ i < 32, bit (encodeInternal schema (decodeInternal schema bitmap)) i =
          (bitmap.testBit i && schema.any (fun e => e.2.covers i)) := by
        intro i hi
        rw [hq, bit_natCast _ hi, Nat.testBit_and, testBit_declaredBits]
      refine ⟨fun hc => ?_, fun h32 => ?_⟩
      · have h0 := (nonneg_iff hx).mp (hq ▸ Int.natCast_nonneg _)
        rw [hb 31 (by decide), any_eq_true.mpr ⟨e, he, hc⟩, Bool.and_true] at h0
        exact h0
      · have ho : ∀ i < 32, e.2.covers i := by
          have := (h.inRange e he).le
          simp [BitRange.covers]
          omega
        refine Nat.eq_of_testBit_eq fun i => ?_
        rw [Nat.zero_testBit]
        by_cases hi : i < 32
        · have hbit := hb i hi
          rw [any_eq_true.mpr ⟨e, he, ho i hi⟩, Bool.and_true] at hbit
          rw [← hbit, h.bit_recoded bitmap hi, any_eq_false]
          intro e' he' ht
          simp only [Bool.and_eq_true, decide_eq_true_eq] at ht
          obtain rfl := h.disjoint e he e' he' i (ho i hi) ht.2.2
          exact ht.2.1 h32
        · exact testBit_of_lt hl (by omega)
    · intro hc
      apply eq_natCast hx
      · refine Nat.lt_pow_two_of_testBit _ fun i hi => ?_
        rw [Nat.testBit_and, testBit_declaredBits]
        by_cases h31 : i = 31
        · subst h31
          cases hb : bitmap.testBit 31 with
          | false => rfl
          | true =>
            rw [Bool.true_and, any_eq_false]
            intro e he ho
            simp [(hc e he).1 ho] at hb
        · rw [testBit_of_lt hl (by omega), Bool.false_and]
      · intro i hi
        rw [h.bit_recoded bitmap hi, Nat.testBit_and, testBit_declaredBits, Bool.eq_iff_iff]
        simp only [any_eq_true, Bool.and_eq_true, decide_eq_true_eq]
        constructor
        · rintro ⟨e, he, hbit, -, ho⟩
          exact ⟨hbit, e, he, ho⟩
        · rintro ⟨hbit, e, he, ho⟩
          refine ⟨e, he, hbit, fun h32 => ?_, ho⟩
          simp [(hc e he).2 h32] at hbit

theorem coherent_singleton (name : String) (h : r.InRange) : Coherent [(name, r)] :=
  ⟨by simp, by simpa using h, by simp⟩

theorem bitmap_round_trip_mode : (∃ value, value "mode" = some (.number 5) ∧
      decodeInternal [("mode", ⟨.number, 1, 3⟩)]
        (encodeInternal [("mode", ⟨.number, 1, 3⟩)] value) =
        value) ∧ encodeInternal [("mode", ⟨.number, 1, 3⟩)]
      (decodeInternal [("mode", ⟨.number, 1, 3⟩)] (255 : Nat)) = (14 : Nat) := by
  obtain ⟨hv, hb⟩ := bitmap_round_trip (coherent_singleton "mode" (r := ⟨.number, 1, 3⟩)
    ⟨by decide, by decide, by decide⟩)
  refine ⟨⟨fun name => if name = "mode" then some (.number 5) else none, rfl,
    ((hv _ ?_).mpr ?_).2.2⟩, (hb 255 (by decide)).mpr (by decide)⟩
  · simp [Fits, BitRange.Fits]
  · simp [BitRange.Survives, BitRange.ClearsSign]

/-- A flag at bit 31 is encoded as a negative number. -/
theorem encodeInternal_flag31 : ∃ schema value, Coherent schema ∧ Fits schema value ∧
    encodeInternal schema value < 0 := by
  refine ⟨[("flag", ⟨.flag, 31, 1⟩)], fun name => if name = "flag" then some (.flag true) else none,
    coherent_singleton _ ⟨by decide, by decide, fun _ => rfl⟩, ?_, by decide⟩
  simp [Fits, BitRange.Fits]

end MatterJs.Schema
