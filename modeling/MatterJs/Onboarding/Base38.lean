import MatterJs.Tlv.Element
import MatterJs.Foundation.LittleEndian

/-!
# Base 38

Three bytes are written as five characters, two as four and one as two, the least significant first.
-/
namespace MatterJs.Onboarding

open List LittleEndian

open Tlv (ok_of_bind)

/-- A string, as its UTF-16 code units. -/
abbrev Text := List UInt16

def textOf (s : String) : Text := s.toList.map (fun char => UInt16.ofNat char.toNat)

namespace Base38

def alphabet : Text := textOf "0123456789ABCDEFGHIJKLMNOPQRSTUVWXYZ-."

/-- The errors, with what their texts name. -/
inductive UnexpectedDataError
  | invalidLength (encodedLength : Nat)
  | unexpectedCharacter (char : UInt16) (position : Nat)
  | moreBytes (offset byteCount : Nat)

def encodeBase38 : (value charCount : Nat) → Text
  | _, 0 => []
  | value, charCount + 1 =>
    let remainder := value % 38
    alphabet.getD remainder 0 :: encodeBase38 ((value - remainder) / 38) charCount

def encode : List UInt8 → Text
  | b₀ :: b₁ :: b₂ :: bytes => encodeBase38 (LittleEndian.decode [b₀, b₁, b₂]) 5 ++ encode bytes
  | [b₀, b₁] => encodeBase38 (LittleEndian.decode [b₀, b₁]) 4
  | [b₀] => encodeBase38 (LittleEndian.decode [b₀]) 2
  | [] => []

/-- The loop of `decodeBase38`, which runs from the last character to the first. -/
def decodeCodes (offset : Nat) : Text → Except UnexpectedDataError Nat
  | [] => .ok 0
  | char :: chars => do
    let result ← decodeCodes (offset + 1) chars
    match alphabet.findIdx? (· == char) with
    | none => .error (.unexpectedCharacter char offset)
    | some code => .ok (result * 38 + code)

def decodeBase38 (encoded : Text) (offset byteCount : Nat) : Except UnexpectedDataError Nat := do
  let result ← decodeCodes offset encoded
  if result ≥ 1 <<< (8 * byteCount) then .error (.moreBytes offset byteCount) else .ok result

/-- The loop of `decodeInternal`. The length of the rest is 2 where it is below 4. -/
def decodeGroups (offset : Nat) : Text → Except UnexpectedDataError (List UInt8)
  | c₀ :: c₁ :: c₂ :: c₃ :: c₄ :: encoded => do
    let value ← decodeBase38 [c₀, c₁, c₂, c₃, c₄] offset 3
    let bytes ← decodeGroups (offset + 5) encoded
    .ok (LittleEndian.encode 3 value ++ bytes)
  | [] => .ok []
  | [c₀, c₁, c₂, c₃] => do
    let value ← decodeBase38 [c₀, c₁, c₂, c₃] offset 2
    .ok (LittleEndian.encode 2 value)
  | encoded => do
    let value ← decodeBase38 encoded offset 1
    .ok (LittleEndian.encode 1 value)

def decode (encoded : Text) : Except UnexpectedDataError (List UInt8) :=
  if encoded.length % 5 = 1 ∨ encoded.length % 5 = 3 then .error (.invalidLength encoded.length)
  else decodeGroups 0 encoded

variable {v c b o : Nat} {chars : Text} {bs : List UInt8}

theorem findIdx_alphabet : ∀ code < 38,
    alphabet.findIdx? (· == alphabet.getD code 0) = some code := by
  decide

theorem decodeCodes_encodeBase38 (o : Nat) (h : v < 38 ^ c) :
    decodeCodes o (encodeBase38 v c) = .ok v := by
  induction c generalizing v o with
  | zero => simp_all [encodeBase38, decodeCodes]
  | succ c ih =>
    have hm : v % 38 < 38 := Nat.mod_lt _ (by decide)
    have hl : (v - v % 38) / 38 < 38 ^ c := by rw [Nat.pow_succ] at h; omega
    simp only [encodeBase38, decodeCodes, ih (o + 1) hl, findIdx_alphabet _ hm]
    exact congrArg Except.ok (by omega)

/-- Characters that decode are those that encode the number. -/
theorem encodeBase38_of_decodeCodes (h : decodeCodes o chars = .ok v) :
    encodeBase38 v chars.length = chars := by
  induction chars generalizing o v with
  | nil => rfl
  | cons char chars ih =>
    obtain ⟨result, hs, h⟩ := ok_of_bind h
    cases hc : alphabet.findIdx? (· == char) with
    | none => simp [hc] at h
    | some code =>
      obtain rfl : result * 38 + code = v := by simpa [hc] using h
      obtain ⟨hl, hcr, -⟩ := findIdx?_eq_some_iff_getElem.mp hc
      have hlt' : code < 38 := hl
      have hm : (result * 38 + code) % 38 = code := by omega
      have hd : (result * 38 + code - code) / 38 = result := by omega
      simp only [length_cons, encodeBase38, hm, hd, ih hs]
      simpa [getElem?_eq_getElem hl] using hcr

theorem decodeBase38_eq_ok : decodeBase38 chars o b = .ok v ↔
    decodeCodes o chars = .ok v ∧ v < 256 ^ b := by
  have hp : 1 <<< (8 * b) = 256 ^ b := by
    rw [Nat.one_shiftLeft, Nat.pow_mul]
  unfold decodeBase38
  rw [hp]
  cases decodeCodes o chars with
  | error e => simp [bind, Except.bind]
  | ok r =>
    by_cases h : 256 ^ b ≤ r
    · simp only [bind, Except.bind, ge_iff_le, h, if_true, reduceCtorEq, Except.ok.injEq, false_iff]
      omega
    · simp only [bind, Except.bind, ge_iff_le, h, if_false, Except.ok.injEq]
      omega

/-- A group of bytes that its characters can hold. -/
theorem decode_group (bs : List UInt8) (c o : Nat) (h : 256 ^ bs.length ≤ 38 ^ c) :
    decodeBase38 (encodeBase38 (LittleEndian.decode bs) c) o bs.length =
      .ok (LittleEndian.decode bs) := by
  have hl := decode_lt bs
  exact decodeBase38_eq_ok.mpr ⟨decodeCodes_encodeBase38 o (by omega), hl⟩

theorem encode_group (h : decodeBase38 chars o b = .ok v) :
    encodeBase38 (LittleEndian.decode (LittleEndian.encode b v)) chars.length = chars := by
  obtain ⟨hc, hl⟩ := decodeBase38_eq_ok.mp h
  rw [decode_encode_of_lt hl]
  exact encodeBase38_of_decodeCodes hc

theorem length_encodeBase38 (v c : Nat) : (encodeBase38 v c).length = c := by
  induction c generalizing v with
  | zero => rfl
  | succ c ih => simp [encodeBase38, ih]

theorem length_encode (bs : List UInt8) :
    (encode bs).length % 5 ≠ 1 ∧ (encode bs).length % 5 ≠ 3 := by
  fun_induction encode bs <;> simp_all [length_encodeBase38]

theorem decodeGroups_encode (bs : List UInt8) (o : Nat) : decodeGroups o (encode bs) = .ok bs := by
  fun_induction encode bs generalizing o with
  | case1 b b₁ b₂ bs ih =>
    have hg := decode_group [b, b₁, b₂] 5 o (by simp)
    have hb := encode_decode [b, b₁, b₂]
    simp only [encodeBase38, cons_append, nil_append, decodeGroups, ih] at hg ⊢
    erw [hg]
    exact congrArg (fun g => Except.ok (g ++ bs)) hb
  | case2 b b₁ =>
    have hg := decode_group [b, b₁] 4 o (by simp)
    simp only [encodeBase38, decodeGroups] at hg ⊢
    erw [hg]
    exact congrArg Except.ok (encode_decode [b, b₁])
  | case3 b =>
    have hg := decode_group [b] 2 o (by simp)
    simp only [encodeBase38, decodeGroups] at hg ⊢
    erw [hg]
    exact congrArg Except.ok (encode_decode [b])
  | case4 => rfl

theorem encode_of_decodeGroups (hl : chars.length % 5 ≠ 1 ∧ chars.length % 5 ≠ 3)
    (h : decodeGroups o chars = .ok bs) : encode bs = chars := by
  fun_induction decodeGroups o chars generalizing bs with
  | case1 o c c₁ c₂ c₃ c₄ e ih =>
    obtain ⟨v, hv, h⟩ := ok_of_bind h
    obtain ⟨rest, hs, ⟨⟩⟩ := ok_of_bind h
    have he := ih (by grind) hs
    rw [← he]
    exact congrArg (· ++ encode rest) (encode_group hv)
  | case2 =>
    cases h
    rfl
  | case3 o c c₁ c₂ c₃ =>
    obtain ⟨v, hv, ⟨⟩⟩ := ok_of_bind h
    exact encode_group hv
  | case4 o e hi hn hf =>
    obtain ⟨v, hv, ⟨⟩⟩ := ok_of_bind h
    match e with
    | [] => exact absurd rfl hn
    | [c] | [c, c₁, c₂] => simp at hl
    | [c, c₁] => exact encode_group hv
    | [c, c₁, c₂, c₃] => exact absurd rfl (hf c c₁ c₂ c₃)
    | c :: c₁ :: c₂ :: c₃ :: c₄ :: e => exact absurd rfl (hi c c₁ c₂ c₃ c₄ e)

/-- Bytes come back from their text, and a text that is not refused is that of its bytes. -/
theorem base38_bijective : (∀ bs, decode (encode bs) = .ok bs) ∧
    ∀ encoded, (∃ e, decode encoded = .error e) ∨
      ∃ bs, decode encoded = .ok bs ∧ encode bs = encoded := by
  constructor
  · intro bs
    obtain ⟨h₁, h₃⟩ := length_encode bs
    rw [decode, if_neg (by omega), decodeGroups_encode]
  · intro encoded
    cases h : decode encoded with
    | error e => exact .inl ⟨e, rfl⟩
    | ok bs =>
      refine .inr ⟨bs, rfl, ?_⟩
      unfold decode at h
      split_ifs at h with hl
      exact encode_of_decodeGroups (by omega) h

end Base38

end MatterJs.Onboarding
