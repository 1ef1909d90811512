import Mathlib.Data.Vector.Basic

/-!
# The check digit of a manual pairing code

`multiply` is the table of a group. The product of the permuted digits of an accepted code is the
unit, and a product determines each of its factors.
-/
namespace MatterJs.Onboarding.Verhoeff

open List hiding Vector

abbrev Digit := Fin 10

def multiply : Vector (Vector Digit 10) 10 := #v[
  #v[0, 1, 2, 3, 4, 5, 6, 7, 8, 9],
  #v[1, 2, 3, 4, 0, 6, 7, 8, 9, 5],
  #v[2, 3, 4, 0, 1, 7, 8, 9, 5, 6],
  #v[3, 4, 0, 1, 2, 8, 9, 5, 6, 7],
  #v[4, 0, 1, 2, 3, 9, 5, 6, 7, 8],
  #v[5, 9, 8, 7, 6, 0, 4, 3, 2, 1],
  #v[6, 5, 9, 8, 7, 1, 0, 4, 3, 2],
  #v[7, 6, 5, 9, 8, 2, 1, 0, 4, 3],
  #v[8, 7, 6, 5, 9, 3, 2, 1, 0, 4],
  #v[9, 8, 7, 6, 5, 4, 3, 2, 1, 0]]

def inverse : Vector Digit 10 := #v[0, 4, 3, 2, 1, 5, 6, 7, 8, 9]

def permute : Vector (Vector Digit 10) 8 := #v[
  #v[0, 1, 2, 3, 4, 5, 6, 7, 8, 9],
  #v[1, 5, 7, 6, 2, 8, 3, 0, 9, 4],
  #v[5, 8, 0, 3, 7, 9, 6, 1, 4, 2],
  #v[8, 9, 1, 6, 0, 4, 3, 5, 2, 7],
  #v[9, 4, 5, 3, 1, 2, 6, 8, 7, 0],
  #v[4, 2, 8, 6, 5, 7, 3, 9, 0, 1],
  #v[2, 7, 9, 3, 8, 0, 6, 4, 1, 5],
  #v[7, 0, 4, 6, 9, 1, 3, 2, 5, 8]]

/-- `Number.parseInt` of one character. -/
def parseInt (char : Char) : Option Digit :=
  (finRange 10).find? (·.val.digitChar == char)

/-- The loop of `computeChecksum`, on the characters from the last to the first. -/
def checksumLoop : (i : Nat) → (checksum : Digit) → List Char → Except String Digit
  | _, checksum, [] => .ok checksum
  | i, checksum, char :: chars =>
    match parseInt char with
    | none => .error "Invalid verhoeff checksum digit"
    | some digit =>
      checksumLoop (i + 1) multiply[checksum][permute[Fin.ofNat 8 i][digit]] chars

def computeChecksum (digits : List Char) : Except String Digit := do
  let checksum ← checksumLoop 1 0 digits.reverse
  .ok inverse[checksum]

/-- The comparison in `decodeInternal` of a manual pairing code. -/
def hasValidChecksum (encoded : List Char) : Bool :=
  match computeChecksum encoded.dropLast, encoded.getLast?.bind parseInt with
  | .ok checksum, some digit => checksum == digit
  | _, _ => false

/-- The digits that are left of a code once the other characters are removed. -/
def text (digits : List Digit) : List Char := digits.map (·.val.digitChar)

/-- The product of the permuted digits, from the position `i`. -/
def product : (i : Nat) → List Digit → Digit
  | _, [] => 0
  | i, d :: s => multiply[permute[Fin.ofNat 8 i][d]][product (i + 1) s]

/-- `multiply` is associative and can be cancelled on both sides. -/
theorem multiply_group : ∀ a b c : Digit,
    multiply[multiply[a][b]][c] = multiply[a][multiply[b][c]] ∧
      (multiply[a][b] = multiply[a][c] → b = c) ∧ (multiply[b][a] = multiply[c][a] → b = c) := by
  decide +kernel

theorem multiply_unit : ∀ a b : Digit, multiply[(0 : Digit)][a] = a ∧ multiply[a][(0 : Digit)] = a ∧
    (inverse[a] = b ↔ multiply[b][a] = 0) := by
  decide +kernel

/-- The group does not commute, so an exchange is seen. -/
theorem permute_inj : ∀ (i : Fin 8) (a b : Digit), (permute[i][a] = permute[i][b] → a = b) ∧
    (multiply[permute[i][a]][permute[i + 1][b]] = multiply[permute[i][b]][permute[i + 1][a]] →
      a = b) := by
  decide +kernel

theorem digit_first : ∀ d : Digit, parseInt d.val.digitChar = some d ∧
    permute[Fin.ofNat 8 0][d] = d := by
  decide +kernel

variable {a b d : Digit} {s t : List Digit}

theorem checksumLoop_text (i : Nat) (c : Digit) (s : List Digit) :
    checksumLoop i c (text s) = .ok multiply[c][product i s] := by
  induction s generalizing i c with
  | nil => exact congrArg _ (multiply_unit c 0).2.1.symm
  | cons d s ih =>
    simp only [text, map_cons, checksumLoop, (digit_first d).1]
    rw [← text, ih, (multiply_group ..).1]
    rfl

/-- The check digit has the position 0, whose permutation changes nothing. -/
theorem product_of_valid (h : hasValidChecksum (text s)) : product 0 s.reverse = 0 := by
  obtain rfl | ⟨s, d, rfl⟩ := s.eq_nil_or_concat'
  · rfl
  have hr : (text s).reverse = text s.reverse := map_reverse.symm
  have hd : text (s ++ [d]) = text s ++ [d.val.digitChar] := map_append
  rw [hd, hasValidChecksum, dropLast_concat, getLast?_concat, computeChecksum, hr,
    checksumLoop_text] at h
  simp only [Option.bind_some, (digit_first d).1, Except.bind, bind] at h
  rw [beq_iff_eq, (multiply_unit ..).2.2, (multiply_unit _ 0).1] at h
  simpa only [reverse_concat, product, (digit_first d).2] using h

theorem eq_of_product_eq (i : Nat) (s : List Digit)
    (h : product i (s ++ a :: t) = product i (s ++ b :: t)) : a = b := by
  induction s generalizing i with
  | nil => exact (permute_inj ..).1 ((multiply_group ..).2.2 h)
  | cons d s ih => exact ih _ ((multiply_group ..).2.1 h)

theorem eq_of_product_swap (i : Nat) (s : List Digit)
    (h : product i (s ++ a :: b :: t) = product i (s ++ b :: a :: t)) : a = b := by
  induction s generalizing i with
  | nil =>
    have hi : Fin.ofNat 8 (i + 1) = Fin.ofNat 8 i + 1 := Fin.ext (by simp [Fin.val_add])
    simp only [nil_append, product, ← (multiply_group ..).1, hi] at h
    exact (permute_inj ..).2 ((multiply_group ..).2.2 h)
  | cons d s ih => exact ih _ ((multiply_group ..).2.1 h)

/-- Of two codes that differ in one digit, or in the order of two adjacent ones, at most one is
accepted. -/
theorem accepted_code_determined (h : hasValidChecksum (text (s ++ a :: t))) :
    (∀ b, hasValidChecksum (text (s ++ b :: t)) → b = a) ∧
      ∀ b u, t = b :: u → hasValidChecksum (text (s ++ b :: a :: u)) → b = a := by
  have hp := product_of_valid h
  refine ⟨fun b hb => ?_, fun b u hu hb => ?_⟩
  · have hq := (product_of_valid hb).trans hp.symm
    simp only [reverse_append, reverse_cons, append_assoc] at hq
    exact eq_of_product_eq 0 _ hq
  · subst hu
    have hq := hp.trans (product_of_valid hb).symm
    simp only [reverse_append, reverse_cons, append_assoc] at hq
    exact eq_of_product_swap 0 _ hq

theorem accepted_code_determined_236 : hasValidChecksum (text [2, 3, 6, 3]) ∧
    (∀ b, hasValidChecksum (text [2, b, 6, 3]) → b = 3) ∧
    ¬ hasValidChecksum (text [2, 6, 3, 3]) := by
  have h : hasValidChecksum (text ([2] ++ 3 :: [6, 3])) := by decide +kernel
  obtain ⟨hs, ht⟩ := accepted_code_determined h
  exact ⟨h, hs, fun hv => absurd (ht 6 [3] rfl hv) (by decide)⟩

end MatterJs.Onboarding.Verhoeff
