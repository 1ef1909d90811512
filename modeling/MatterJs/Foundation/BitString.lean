import Mathlib.Algebra.Order.Ring.Nat
import Mathlib.Data.Nat.Size

/-! Numbers as their binary digits, the highest first. -/
namespace BitString

open List

def toBits : (width n : Nat) → List Bool
  | 0, _ => []
  | width + 1, n => toBits width (n / 2) ++ [n % 2 == 1]

def ofBits (bits : List Bool) : Nat := bits.foldl (fun n bit => 2 * n + bit.toNat) 0

/-- The digits of a number, filled up with zeros to a width. -/
def padded (width n : Nat) : List Bool := toBits (max width n.size) n

/-- Takes a number of a width off the front. -/
def read (width : Nat) (bits : List Bool) : Option (Nat × List Bool) :=
  if bits.length < width then none else some (ofBits (bits.take width), bits.drop width)

variable {n w : Nat}

@[simp] theorem length_toBits (w n : Nat) : (toBits w n).length = w := by
  induction w generalizing n with
  | zero => rfl
  | succ w ih => simp [toBits, ih]

theorem ofBits_toBits (h : n < 2 ^ w) : ofBits (toBits w n) = n := by
  induction w generalizing n with
  | zero => simp_all [ofBits, toBits]
  | succ w ih =>
    have hn : n / 2 < 2 ^ w := by omega
    have hb : (n % 2 == 1).toNat = n % 2 := by
      rcases Nat.mod_two_eq_zero_or_one n with h | h <;> simp [h]
    rw [toBits, ofBits, foldl_append, ← ofBits, ih hn, foldl_cons, foldl_nil, hb]
    omega

theorem toBits_add (k w n : Nat) : toBits (k + w) n = toBits k (n / 2 ^ w) ++ toBits w n := by
  induction w generalizing n with
  | zero => simp [toBits]
  | succ w ih =>
    rw [← Nat.add_assoc, toBits, ih, toBits, Nat.div_div_eq_div_mul, ← Nat.pow_succ', append_assoc]

theorem padded_eq (h : n < 2 ^ w) : padded w n = toBits w n := by
  rw [padded, Nat.max_eq_left (Nat.size_le.mpr h)]

theorem read_toBits (h : n < 2 ^ w) (rest : List Bool) :
    read w (toBits w n ++ rest) = some (n, rest) := by
  have hl := length_toBits w n
  rw [read, if_neg (by simp), take_left' hl, drop_left' hl, ofBits_toBits h]

end BitString
