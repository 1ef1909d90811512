import Mathlib.Algebra.Order.Ring.Int

/-! The 32-bit bitwise operators of ECMAScript on whole numbers. -/
namespace JsInt32

variable (x : Int)

/-- `ToInt32`: the low 32 bits of a whole number. -/
def toInt32 : BitVec 32 := BitVec.ofInt 32 x

/-- `x << n`. The shift count is taken modulo 32 and the result is signed. -/
def shiftLeft (x n : Int) : Int := (toInt32 x <<< (n % 32).toNat).toInt

/-- `x | y`, signed. -/
def bitOr (x y : Int) : Int := (toInt32 x ||| toInt32 y).toInt

/-- `x & y`, signed. -/
def bitAnd (x y : Int) : Int := (toInt32 x &&& toInt32 y).toInt

/-- `x >> n`, which keeps the sign. -/
def shiftRight (x n : Int) : Int := ((toInt32 x).sshiftRight (n % 32).toNat).toInt

/-- `x >>> 0`: the unsigned reading of the low 32 bits. -/
def toUint32 : Int := ((toInt32 x).toNat : Int)

variable (i : Nat)

/-- Bit `i` of a number seen as 32 bits. -/
def bit : Bool := (toInt32 x).getLsbD i

@[simp] theorem toInt32_toInt (v : BitVec 32) : toInt32 v.toInt = v := by
  simp [toInt32]

@[simp] theorem toInt32_natCast (v : BitVec 32) : toInt32 (v.toNat : Int) = v := by
  simp [toInt32]

theorem toInt32_bitOr (x y : Int) : toInt32 (bitOr x y) = toInt32 x ||| toInt32 y :=
  toInt32_toInt _

theorem toInt32_bitAnd (x y : Int) : toInt32 (bitAnd x y) = toInt32 x &&& toInt32 y :=
  toInt32_toInt _

variable {n : Nat} {i}

theorem toInt32_shiftLeft (hn : n < 32) : toInt32 (shiftLeft x n) = toInt32 x <<< n := by
  have hm : ((n : Int) % 32).toNat = n := by omega
  rw [shiftLeft, hm, toInt32_toInt]

@[simp] theorem bit_bitOr (x y : Int) (i : Nat) : bit (bitOr x y) i = (bit x i || bit y i) := by
  simp [bit, toInt32_bitOr]

@[simp] theorem bit_toUint32 : bit (toUint32 x) i = bit x i := by
  simp [bit, toUint32]

@[simp] theorem bit_zero : bit 0 i = false := by
  simp [bit, toInt32]

theorem bit_shiftLeft (hn : n < 32) (hi : i < 32) :
    bit (shiftLeft x n) i = (decide (n ≤ i) && bit x (i - n)) := by
  simp only [bit, toInt32_shiftLeft x hn, BitVec.getLsbD_shiftLeft, hi]
  by_cases hni : n ≤ i
  · simp [hni]
  · simp [hni]

theorem bit_one : bit 1 i = decide (i = 0) := by
  simp [bit, toInt32]

theorem bit_one_shiftLeft (hn : n < 32) (hi : i < 32) : bit (shiftLeft 1 n) i = decide (i = n) := by
  rw [bit_shiftLeft 1 hn hi, bit_one, ← Bool.decide_and]
  congr 1
  apply propext
  omega

/-- Masking with one bit tests it, also for the sign bit `1 << 31`. -/
theorem bitAnd_one_shiftLeft_ne_zero (hn : n < 32) : bitAnd x (shiftLeft 1 n) ≠ 0 ↔ bit x n := by
  have hb : ∀ i, i < 32 → bit (bitAnd x (shiftLeft 1 n)) i = (bit x i && decide (i = n)) := by
    intro i hi
    rw [← bit_one_shiftLeft hn hi]
    simp [bit, toInt32_bitAnd]
  constructor
  · intro h
    by_contra hx
    apply h
    have hz : toInt32 x &&& toInt32 (shiftLeft 1 n) = 0#32 := by
      apply BitVec.eq_of_getLsbD_eq
      intro i hi
      have hi' := hb i hi
      simp only [bit, toInt32_bitAnd] at hi' hx
      rw [hi']
      by_cases he : i = n
      · simp [he, hx]
      · simp [he]
    rw [bitAnd, hz]
    rfl
  · intro hx h
    have hn' := hb n hn
    rw [h, hx, bit_zero] at hn'
    simp at hn'

theorem bit_bitAnd (x y : Int) (i : Nat) : bit (bitAnd x y) i = (bit x i && bit y i) := by
  simp [bit, toInt32_bitAnd]

/-- The bits that move in from the left are the sign. -/
theorem bit_shiftRight (hn : n < 32) (hi : i < 32) :
    bit (shiftRight x n) i = bit x (if n + i < 32 then n + i else 31) := by
  have hm : ((n : Int) % 32).toNat = n := by omega
  simp only [bit, shiftRight, hm, toInt32_toInt, BitVec.getLsbD_sshiftRight,
    BitVec.msb_eq_getLsbD_last]
  split_ifs <;> simp [Nat.not_le.mpr hi]

theorem bit_natCast (m : Nat) (hi : i < 32) : bit (m : Int) i = m.testBit i := by
  rw [bit, toInt32, BitVec.ofInt_natCast, BitVec.getLsbD_ofNat, decide_eq_true hi, Bool.true_and]

/-- A signed number is the natural number of its bits where the sign is not one of them. -/
theorem eq_natCast {x : Int} {m : Nat} (hx : (toInt32 x).toInt = x) (hm : m < 2 ^ 31)
    (h : ∀ i < 32, bit x i = m.testBit i) : x = m := by
  have he : toInt32 x = BitVec.ofNat 32 m := by
    apply BitVec.eq_of_getLsbD_eq
    intro i hi
    rw [BitVec.getLsbD_ofNat, decide_eq_true hi, Bool.true_and]
    exact h i hi
  rw [← hx, he, BitVec.toInt_ofNat']
  exact Int.bmod_eq_of_le (by omega) (by omega)

theorem nonneg_iff {x : Int} (hx : (toInt32 x).toInt = x) : 0 ≤ x ↔ bit x 31 = false := by
  have hs := BitVec.msb_eq_toInt (x := toInt32 x)
  rw [hx, BitVec.msb_eq_getLsbD_last] at hs
  rw [show bit x 31 = decide (x < 0) from hs, decide_eq_false_iff_not, Int.not_lt]

end JsInt32
