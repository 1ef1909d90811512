import Mathlib.Algebra.Order.Ring.Nat
import Mathlib.Data.Nat.Log
import Mathlib.Tactic.Ring

/-!
# Binary floating point

Doubles by their bit pattern, their conversion from and to single precision, and
the rounding of an integer to a double.
-/
namespace Ieee754

variable {n k b : Nat}

/-- Division by a power of two, rounded to nearest and on ties to even. -/
def roundShift (n k : Nat) : Nat :=
  if 2 * (n % 2 ^ k) < 2 ^ k ∨ 2 * (n % 2 ^ k) = 2 ^ k ∧ n / 2 ^ k % 2 = 0 then n / 2 ^ k
  else n / 2 ^ k + 1

theorem roundShift_exact (n k : Nat) : roundShift (n * 2 ^ k) k = n := by
  have hp : 0 < 2 ^ k := Nat.two_pow_pos k
  unfold roundShift
  rw [Nat.mul_mod_left, Nat.mul_div_cancel _ hp, if_pos (.inl (by omega))]

theorem roundShift_zero (k : Nat) : roundShift 0 k = 0 := by
  simpa using roundShift_exact 0 k

/-- The bit patterns of 64 bits that are no numbers. -/
def IsNaN (bits : Nat) : Prop := 0x7ff0000000000000 < bits % 2 ^ 63

instance (bits : Nat) : Decidable (IsNaN bits) := inferInstanceAs (Decidable (_ < _))

/-- A double. All patterns that are no numbers are one value. -/
structure Double where
  bits : Nat
  lt : bits < 2 ^ 64
  canonical : IsNaN bits → bits = 0x7ff8000000000000
  deriving DecidableEq

namespace Double

def nan : Double := ⟨0x7ff8000000000000, by decide, fun _ => rfl⟩

instance : Inhabited Double := ⟨nan⟩

def ofBits (bits : Nat) : Double :=
  if h : IsNaN (bits % 2 ^ 64) then nan
  else ⟨bits % 2 ^ 64, Nat.mod_lt _ (by decide), fun hn => absurd hn h⟩

variable (d : Double)

theorem ofBits_bits : ofBits d.bits = d := by
  obtain ⟨bits, hl, hc⟩ := d
  unfold ofBits
  split_ifs with h
  · simp only [Nat.mod_eq_of_lt hl] at h
    simp [nan, hc h]
  · simp only [Nat.mod_eq_of_lt hl]

/-- The order of the numbers, with both zeros equal and NaN unordered. -/
def lt? (x y : Double) : Bool :=
  let key (d : Double) : Int :=
    if d.bits < 2 ^ 63 then d.bits else -((d.bits - 2 ^ 63 : Nat) : Int)
  !decide (IsNaN x.bits) && !decide (IsNaN y.bits) && decide (key x < key y)

/-- The value in units of `2 ^ -1074`. An infinity counts as `2 ^ 1024`. -/
def scaled : Int :=
  let e := d.bits / 2 ^ 52 % 2048
  let m := d.bits % 2 ^ 52
  let magnitude : Nat := if e = 0 then m else (2 ^ 52 + m) * 2 ^ (e - 1)
  if d.bits < 2 ^ 63 then magnitude else -magnitude

/-- The integers next to a double. -/
def floor : Int := d.scaled / 2 ^ 1074

def ceil : Int := -(-d.scaled / 2 ^ 1074)

def truncate : Int := if 0 < d.scaled then d.floor else d.ceil

/-- The integer that a double is. -/
def toInteger? : Option Int :=
  if d.bits % 2 ^ 63 < 2047 * 2 ^ 52 ∧ d.scaled % 2 ^ 1074 = 0 then some d.floor else none

/-- The magnitude bits of a double that has the value of a single. -/
def widenMagnitude (e m : Nat) : Nat :=
  if e = 255 then 2047 * 2 ^ 52 + m * 2 ^ 29
  else if e = 0 then
    if m = 0 then 0 else (m.log2 + 874) * 2 ^ 52 + (m - 2 ^ m.log2) * 2 ^ (52 - m.log2)
  else (e + 896) * 2 ^ 52 + m * 2 ^ 29

/-- The double with the value of a single, given by its 32 bits. -/
def ofSingle (b : Nat) : Double :=
  ofBits (b / 2 ^ 31 % 2 * 2 ^ 63 + widenMagnitude (b / 2 ^ 23 % 256) (b % 2 ^ 23))

/-- The magnitude bits of the single nearest to a double. -/
def narrowMagnitude (e m : Nat) : Nat :=
  if e = 2047 then if m = 0 then 255 * 2 ^ 23 else 0x7fc00000
  else if e < 897 then roundShift (if e = 0 then m else 2 ^ 52 + m) (926 - max e 1)
  else min (roundShift ((e - 896) * 2 ^ 52 + m) 29) (255 * 2 ^ 23)

/-- The 32 bits of the single nearest to a double. -/
def toSingle : Nat :=
  d.bits / 2 ^ 63 * 2 ^ 31 + narrowMagnitude (d.bits / 2 ^ 52 % 2048) (d.bits % 2 ^ 52)

/-- The double is the value of some single. -/
def IsSingle : Prop := ∃ b < 2 ^ 32, ofSingle b = d

/-- The significand of a small single, moved up to that of a double. -/
theorem subnormal_significand {m : Nat} (hm : m ≠ 0) (ht : m < 2 ^ 23) :
    m.log2 ≤ 22 ∧ (m - 2 ^ m.log2) * 2 ^ (52 - m.log2) < 2 ^ 52 ∧
      2 ^ 52 + (m - 2 ^ m.log2) * 2 ^ (52 - m.log2) = m * 2 ^ (52 - m.log2) := by
  have hl : 2 ^ m.log2 ≤ m := Nat.log2_self_le hm
  have hh : m < 2 ^ (m.log2 + 1) := Nat.lt_log2_self
  have hk : m.log2 ≤ 22 := by
    by_contra hc
    have : 2 ^ 23 ≤ 2 ^ m.log2 := Nat.pow_le_pow_right (by decide) (by omega)
    omega
  have hs : 2 ^ m.log2 * 2 ^ (52 - m.log2) = 2 ^ 52 := by
    rw [← Nat.pow_add]
    congr 1
    omega
  have hp : 0 < 2 ^ (52 - m.log2) := Nat.two_pow_pos _
  have hu : m - 2 ^ m.log2 < 2 ^ m.log2 := by
    omega
  refine ⟨hk, ?_, ?_⟩
  · calc (m - 2 ^ m.log2) * 2 ^ (52 - m.log2)
        < 2 ^ m.log2 * 2 ^ (52 - m.log2) := Nat.mul_lt_mul_of_pos_right hu hp
      _ = 2 ^ 52 := hs
  · calc 2 ^ 52 + (m - 2 ^ m.log2) * 2 ^ (52 - m.log2)
        = (2 ^ m.log2 + (m - 2 ^ m.log2)) * 2 ^ (52 - m.log2) := by rw [Nat.add_mul, hs]
      _ = m * 2 ^ (52 - m.log2) := by rw [Nat.add_sub_cancel' hl]

/-- Widening is exact: narrowing gives the same single back. -/
theorem narrowMagnitude_widenMagnitude {e m : Nat} (he : e < 256) (hm : m < 2 ^ 23) (hn : e = 255 →
    m = 0) : widenMagnitude e m ≤ 0x7ff0000000000000 ∧ narrowMagnitude (widenMagnitude e m / 2 ^ 52)
    (widenMagnitude e m % 2 ^ 52) = e * 2 ^ 23 + m := by
  unfold widenMagnitude
  split_ifs with h255 h0 hm0
  · obtain rfl := hn h255
    subst h255
    decide
  · subst h0 hm0
    refine ⟨by decide, ?_⟩
    rw [Nat.zero_div, Nat.zero_mod, narrowMagnitude, if_neg (by decide), if_pos (by decide),
      if_pos rfl, roundShift_zero, Nat.zero_mul]
  · subst h0
    obtain ⟨hk, hl, hs⟩ := subnormal_significand hm0 hm
    obtain ⟨X, hX⟩ : ∃ X, (m - 2 ^ m.log2) * 2 ^ (52 - m.log2) = X := ⟨_, rfl⟩
    rw [hX] at hl hs ⊢
    have hE : ((m.log2 + 874) * 2 ^ 52 + X) / 2 ^ 52 = m.log2 + 874 := by omega
    have hM : ((m.log2 + 874) * 2 ^ 52 + X) % 2 ^ 52 = X := by omega
    refine ⟨by omega, ?_⟩
    rw [hE, hM, narrowMagnitude, if_neg (by omega), if_pos (by omega), if_neg (by omega), hs,
      show 926 - max (m.log2 + 874) 1 = 52 - m.log2 by omega, roundShift_exact]
    omega
  · have hE : ((e + 896) * 2 ^ 52 + m * 2 ^ 29) / 2 ^ 52 = e + 896 := by omega
    have hM : ((e + 896) * 2 ^ 52 + m * 2 ^ 29) % 2 ^ 52 = m * 2 ^ 29 := by omega
    have hs : (e + 896 - 896) * 2 ^ 52 + m * 2 ^ 29 = (e * 2 ^ 23 + m) * 2 ^ 29 := by omega
    refine ⟨by omega, ?_⟩
    rw [hE, hM, narrowMagnitude, if_neg (by omega), if_neg (by omega), hs, roundShift_exact]
    omega

theorem bits_ofBits (h : b < 2 ^ 64) (hn : ¬ IsNaN b) : (ofBits b).bits = b := by
  unfold ofBits
  rw [dif_neg (by rwa [Nat.mod_eq_of_lt h])]
  exact Nat.mod_eq_of_lt h

/-- Sign, exponent and mantissa of a pattern put together from sign and magnitude. -/
theorem fields_of_magnitude {s g : Nat} (hg : g < 2 ^ 63) :
    (s * 2 ^ 63 + g) / 2 ^ 63 = s ∧ (s * 2 ^ 63 + g) / 2 ^ 52 % 2048 = g / 2 ^ 52 ∧
      (s * 2 ^ 63 + g) % 2 ^ 52 = g % 2 ^ 52 ∧ (s * 2 ^ 63 + g) % 2 ^ 63 = g := by
  omega

theorem toSingle_ofSingle (h : b < 2 ^ 32)
    (hn : b / 2 ^ 23 % 256 = 255 → b % 2 ^ 23 = 0) : toSingle (ofSingle b) = b := by
  obtain ⟨hl, hnr⟩ := narrowMagnitude_widenMagnitude (e := b / 2 ^ 23 % 256)
    (m := b % 2 ^ 23) (by omega) (by omega) hn
  obtain ⟨g, hg⟩ : ∃ g, widenMagnitude (b / 2 ^ 23 % 256) (b % 2 ^ 23) = g := ⟨_, rfl⟩
  rw [hg] at hl hnr
  obtain ⟨hs, he, hm, ha⟩ := fields_of_magnitude (s := b / 2 ^ 31 % 2) (g := g) (by omega)
  have hb : (ofSingle b).bits = b / 2 ^ 31 % 2 * 2 ^ 63 + g := by
    unfold ofSingle
    rw [hg]
    refine bits_ofBits (by omega) ?_
    unfold IsNaN
    omega
  unfold toSingle
  rw [hb, hs, he, hm, hnr]
  omega

theorem ofSingle_nan (h : b / 2 ^ 23 % 256 = 255) (hm : b % 2 ^ 23 ≠ 0) : ofSingle b = nan := by
  unfold ofSingle widenMagnitude ofBits
  rw [if_pos h, dif_pos]
  unfold IsNaN
  omega

theorem ofSingle_mod (b : Nat) : ofSingle (b % 2 ^ 32) = ofSingle b := by
  have hs : b % 2 ^ 32 / 2 ^ 31 % 2 = b / 2 ^ 31 % 2 := by omega
  have he : b % 2 ^ 32 / 2 ^ 23 % 256 = b / 2 ^ 23 % 256 := by omega
  have hm : b % 2 ^ 32 % 2 ^ 23 = b % 2 ^ 23 := by omega
  unfold ofSingle
  rw [hs, he, hm]

/-- A double that is a single survives the way through single precision. -/
theorem ofSingle_toSingle {d : Double} (h : d.IsSingle) : ofSingle (toSingle d) = d := by
  obtain ⟨b, hb, rfl⟩ := h
  by_cases hn : b / 2 ^ 23 % 256 = 255 → b % 2 ^ 23 = 0
  · rw [toSingle_ofSingle hb hn]
  · obtain ⟨he, hm⟩ := Classical.not_imp.mp hn
    rw [ofSingle_nan he hm]
    decide

end Double

/-- The double nearest to an integer, as an integer. -/
def roundInteger (n : Int) : Int :=
  let k := n.natAbs.log2 - 52
  n.sign * (roundShift n.natAbs k * 2 ^ k : Nat)

theorem roundInteger_of_lt {n : Int} (h : n.natAbs < 2 ^ 53) : roundInteger n = n := by
  have hk : n.natAbs.log2 - 52 = 0 := by
    by_cases h0 : n.natAbs = 0
    · rw [h0]
      decide
    · have := (Nat.log2_lt h0).mpr h
      omega
  have hr : roundShift n.natAbs 0 = n.natAbs := by simpa using roundShift_exact n.natAbs 0
  simp only [roundInteger, hk, hr, Nat.pow_zero, Nat.mul_one]
  exact Int.sign_mul_natAbs n

end Ieee754
