import Mathlib.Algebra.Order.Ring.Int
import Mathlib.Tactic.Ring

/-! Little-endian integers of a fixed number of bytes, unsigned and in two's complement. -/
namespace LittleEndian

variable {w n : Nat} {v : Int} {bs : List UInt8}

/-- The `w` low bytes of a number, least significant first. -/
def encode : Nat → Nat → List UInt8
  | 0, _ => []
  | w + 1, n => UInt8.ofNat n :: encode w (n / 256)

def decode : List UInt8 → Nat
  | [] => 0
  | b :: bs => b.toNat + 256 * decode bs

@[simp] theorem length_encode (w n : Nat) : (encode w n).length = w := by
  induction w generalizing n with
  | zero => rfl
  | succ w ih => simp [encode, ih]

theorem decode_encode (w n : Nat) : decode (encode w n) = n % 256 ^ w := by
  induction w generalizing n with
  | zero => simp [encode, decode, Nat.mod_one]
  | succ w ih =>
    have hb : (UInt8.ofNat n).toNat = n % 256 := by simp
    have hp : 256 ^ (w + 1) = 256 * 256 ^ w := by ring
    rw [encode, decode, ih, hb, hp, Nat.mod_mul]

theorem decode_encode_of_lt (h : n < 256 ^ w) : decode (encode w n) = n := by
  rw [decode_encode, Nat.mod_eq_of_lt h]

theorem encode_decode (bs : List UInt8) : encode bs.length (decode bs) = bs := by
  induction bs with
  | nil => rfl
  | cons b bs ih =>
    have hl : UInt8.ofNat (b.toNat + 256 * decode bs) = b := by
      apply UInt8.toNat_inj.mp
      simp
    have hh : (b.toNat + 256 * decode bs) / 256 = decode bs := by
      have := b.toNat_lt
      omega
    rw [List.length_cons, decode, encode, hl, hh, ih]

theorem decode_lt (bs : List UInt8) : decode bs < 256 ^ bs.length := by
  induction bs with
  | nil => simp [decode]
  | cons b bs ih =>
    have := b.toNat_lt
    rw [decode, List.length_cons, Nat.pow_succ]
    omega

/-- The residue that stands for an integer in `w` bytes. -/
def wrap (w : Nat) (v : Int) : Nat := (v % 256 ^ w).toNat

/-- The two's complement reading of a residue. -/
def signed (w n : Nat) : Int := if 2 * n < 256 ^ w then n else n - 256 ^ w

/-- An integer in `w` bytes. -/
def encodeInt (w : Nat) (v : Int) : List UInt8 := encode w (wrap w v)

@[simp] theorem length_encodeInt (w : Nat) (v : Int) : (encodeInt w v).length = w :=
  length_encode w _

theorem wrap_lt (w : Nat) (v : Int) : wrap w v < 256 ^ w := by
  have hc : ((256 ^ w : Nat) : Int) = 256 ^ w := by push_cast; rfl
  unfold wrap
  omega

theorem wrap_natCast (w n : Nat) : wrap w n = n % 256 ^ w := by
  have hc : ((256 ^ w : Nat) : Int) = 256 ^ w := by push_cast; rfl
  rw [wrap, ← hc, ← Int.natCast_emod, Int.toNat_natCast]

theorem wrap_of_nonneg (h₀ : 0 ≤ v) (h : v < 256 ^ w) : (wrap w v : Int) = v := by
  unfold wrap
  rw [Int.emod_eq_of_lt h₀ h]
  omega

theorem signed_wrap (hl : -(256 ^ w) ≤ 2 * v) (hh : 2 * v < 256 ^ w) : signed w (wrap w v) = v := by
  have hc : ((256 ^ w : Nat) : Int) = 256 ^ w := by push_cast; rfl
  rcases lt_or_ge v 0 with hn | hp
  · have hw : (wrap w v : Int) = v + 256 ^ w := by
      have hm : v % 256 ^ w = v + 256 ^ w := by
        rw [← Int.add_emod_right, Int.emod_eq_of_lt (by omega) (by omega)]
      unfold wrap
      omega
    unfold signed
    omega
  · have hw := wrap_of_nonneg hp (w := w) (by omega)
    unfold signed
    rw [if_pos (by omega), hw]

end LittleEndian
