import Mathlib.Tactic.Common

/-!
# Text encoding

Strings of UTF-16 code units as UTF-8 bytes: the encoder with its replacement of
lone surrogates, and the decoder of the encoding standard with its error
recovery and its byte order mark.
-/
namespace TextCodec

open List UInt8

variable (u : UInt16)

def isHigh : Prop := 0xD800 ≤ u.toNat ∧ u.toNat < 0xDC00

def isLow : Prop := 0xDC00 ≤ u.toNat ∧ u.toNat < 0xE000

instance (u : UInt16) : Decidable (isHigh u) := inferInstanceAs (Decidable (_ ∧ _))

instance (u : UInt16) : Decidable (isLow u) := inferInstanceAs (Decidable (_ ∧ _))

/-- The scalar value of a unit on its own. A surrogate is replaced. -/
def scalar : Nat := if isHigh u ∨ isLow u then 0xFFFD else u.toNat

/-- The scalar value of a surrogate pair. -/
def pair (u v : UInt16) : Nat := 0x10000 + (u.toNat - 0xD800) * 1024 + (v.toNat - 0xDC00)

def scalars : List UInt16 → List Nat
  | [] => []
  | [u] => [scalar u]
  | u :: v :: rest =>
    if isHigh u ∧ isLow v then pair u v :: scalars rest else scalar u :: scalars (v :: rest)

def units (c : Nat) : List UInt16 :=
  if c < 0x10000 then [UInt16.ofNat c]
  else [UInt16.ofNat (0xD800 + (c - 0x10000) / 1024), UInt16.ofNat (0xDC00 + (c - 0x10000) % 1024)]

/-- No surrogate stands alone. -/
def WellFormed : List UInt16 → Prop
  | [] => True
  | [u] => ¬ (isHigh u ∨ isLow u)
  | u :: v :: rest =>
    if isHigh u ∧ isLow v then WellFormed rest
    else ¬ (isHigh u ∨ isLow u) ∧ WellFormed (v :: rest)

instance decidableWellFormed : (s : List UInt16) → Decidable (WellFormed s)
  | [] => isTrue trivial
  | [u] => inferInstanceAs (Decidable (¬ (isHigh u ∨ isLow u)))
  | u :: v :: rest =>
    have := decidableWellFormed rest
    have := decidableWellFormed (v :: rest)
    inferInstanceAs (Decidable (if isHigh u ∧ isLow v then WellFormed rest
      else ¬ (isHigh u ∨ isLow u) ∧ WellFormed (v :: rest)))

def IsScalar (c : Nat) : Prop := c < 0xD800 ∨ 0xE000 ≤ c ∧ c < 0x110000

def encodeScalar (c : Nat) : List UInt8 :=
  if c < 0x80 then [ofNat c]
  else if c < 0x800 then [ofNat (0xC0 + c / 64), ofNat (0x80 + c % 64)]
  else if c < 0x10000 then
    [ofNat (0xE0 + c / 4096), ofNat (0x80 + c / 64 % 64), ofNat (0x80 + c % 64)]
  else
    [ofNat (0xF0 + c / 262144), ofNat (0x80 + c / 4096 % 64),
      ofNat (0x80 + c / 64 % 64), ofNat (0x80 + c % 64)]

def encode (s : List UInt16) : List UInt8 := (scalars s).flatMap encodeScalar

/-- A decoder between two bytes: how many continuation bytes it still needs, the code
point so far, and the bounds of the next byte. -/
structure Decoder where
  needed : Nat
  codePoint : Nat
  lower : Nat
  upper : Nat

def idle : Decoder := ⟨0, 0, 0x80, 0xBF⟩

def start (b : UInt8) : List Nat × Decoder :=
  let n := b.toNat
  if n < 0x80 then ([n], idle)
  else if 0xC2 ≤ n ∧ n < 0xE0 then ([], ⟨1, n - 0xC0, 0x80, 0xBF⟩)
  else if 0xE0 ≤ n ∧ n < 0xF0 then
    ([], ⟨2, n - 0xE0, if n = 0xE0 then 0xA0 else 0x80, if n = 0xED then 0x9F else 0xBF⟩)
  else if 0xF0 ≤ n ∧ n < 0xF5 then
    ([], ⟨3, n - 0xF0, if n = 0xF0 then 0x90 else 0x80, if n = 0xF4 then 0x8F else 0xBF⟩)
  else ([0xFFFD], idle)

/-- One byte of input. A byte that cannot continue a sequence ends it with a replacement
and is read again as a first byte. -/
def feed (d : Decoder) (b : UInt8) : List Nat × Decoder :=
  if d.needed = 0 then start b
  else if d.lower ≤ b.toNat ∧ b.toNat ≤ d.upper then
    let c := d.codePoint * 64 + (b.toNat - 0x80)
    if d.needed = 1 then ([c], idle) else ([], ⟨d.needed - 1, c, 0x80, 0xBF⟩)
  else (0xFFFD :: (start b).1, (start b).2)

def decodeFrom : Decoder → List UInt8 → List Nat
  | d, [] => if d.needed = 0 then [] else [0xFFFD]
  | d, b :: bs => (feed d b).1 ++ decodeFrom (feed d b).2 bs

/-- A byte order mark at the start is no text. -/
def stripMark : List Nat → List Nat
  | [] => []
  | c :: cs => if c = 0xFEFF then cs else c :: cs

def decode (bs : List UInt8) : List UInt16 := (stripMark (decodeFrom idle bs)).flatMap units

variable {s : List UInt16} {u} {v : UInt16} {c : Nat} {bs : List UInt8}

theorem scalar_isScalar (u : UInt16) : IsScalar (scalar u) := by
  have := u.toNat_lt
  unfold scalar IsScalar
  split_ifs with h
  · omega
  · unfold isHigh isLow at h
    omega

theorem pair_isScalar (hu : isHigh u) (hv : isLow v) : IsScalar (pair u v) := by
  unfold isHigh at hu
  unfold isLow at hv
  unfold pair IsScalar
  omega

theorem scalars_isScalar (s : List UInt16) : ∀ c ∈ scalars s, IsScalar c := by
  induction s using scalars.induct with
  | case1 => simp [scalars]
  | case2 u => simp [scalars, scalar_isScalar]
  | case3 u v rest h ih =>
    simp only [scalars, if_pos h]
    intro c hc
    rcases mem_cons.mp hc with hc | hc
    · rw [hc]
      exact pair_isScalar h.1 h.2
    · exact ih c hc
  | case4 u v rest h ih =>
    simp only [scalars, if_neg h]
    intro c hc
    rcases mem_cons.mp hc with rfl | hc
    · exact scalar_isScalar u
    · exact ih c hc

theorem toNat_byte (h : c < 256) : (ofNat c).toNat = c := by
  simp only [toNat_ofNat']
  omega

section Feed

variable {n p l k r : Nat}

theorem decodeFrom_two (h : 2 ≤ r) (h' : r < 32) :
    decodeFrom idle (ofNat (0xC0 + r) :: bs) = decodeFrom ⟨1, r, 0x80, 0xBF⟩ bs := by
  have hs : start (ofNat (0xC0 + r)) = ([], ⟨1, r, 0x80, 0xBF⟩) := by
    unfold start
    rw [toNat_byte (by omega), if_neg (by omega), if_pos (by omega), Nat.add_sub_cancel_left]
  exact congrArg (fun s => s.1 ++ decodeFrom s.2 bs) hs

theorem decodeFrom_three (h : r < 16) : decodeFrom idle (ofNat (0xE0 + r) :: bs) =
      decodeFrom ⟨2, r, if 0xE0 + r = 0xE0 then 0xA0 else 0x80,
        if 0xE0 + r = 0xED then 0x9F else 0xBF⟩ bs := by
  have hs : start (ofNat (0xE0 + r)) = ([], ⟨2, r, if 0xE0 + r = 0xE0 then 0xA0 else 0x80,
      if 0xE0 + r = 0xED then 0x9F else 0xBF⟩) := by
    unfold start
    rw [toNat_byte (by omega), if_neg (by omega), if_neg (by omega), if_pos (by omega),
      Nat.add_sub_cancel_left]
  exact congrArg (fun s => s.1 ++ decodeFrom s.2 bs) hs

theorem decodeFrom_four (h : r < 5) : decodeFrom idle (ofNat (0xF0 + r) :: bs) =
      decodeFrom ⟨3, r, if 0xF0 + r = 0xF0 then 0x90 else 0x80,
        if 0xF0 + r = 0xF4 then 0x8F else 0xBF⟩ bs := by
  have hs : start (ofNat (0xF0 + r)) = ([], ⟨3, r, if 0xF0 + r = 0xF0 then 0x90 else 0x80,
      if 0xF0 + r = 0xF4 then 0x8F else 0xBF⟩) := by
    unfold start
    rw [toNat_byte (by omega), if_neg (by omega), if_neg (by omega), if_neg (by omega),
      if_pos (by omega), Nat.add_sub_cancel_left]
  exact congrArg (fun s => s.1 ++ decodeFrom s.2 bs) hs

theorem decodeFrom_more (hr : r < 64) (hl : l ≤ 0x80 + r) (hu : 0x80 + r ≤ k) :
    decodeFrom ⟨n + 2, p, l, k⟩ (ofNat (0x80 + r) :: bs) =
      decodeFrom ⟨n + 1, p * 64 + r, 0x80, 0xBF⟩ bs := by
  simp [decodeFrom, feed, toNat_byte (by omega : 0x80 + r < 256), hl, hu, -ofNat_add]

theorem decodeFrom_last (hr : r < 64) (hl : l ≤ 0x80 + r) (hu : 0x80 + r ≤ k) :
    decodeFrom ⟨1, p, l, k⟩ (ofNat (0x80 + r) :: bs) = (p * 64 + r) :: decodeFrom idle bs := by
  simp [decodeFrom, feed, toNat_byte (by omega : 0x80 + r < 256), hl, hu, -ofNat_add]

end Feed

theorem decodeFrom_encodeScalar (hc : IsScalar c) (bs : List UInt8) :
    decodeFrom idle (encodeScalar c ++ bs) = c :: decodeFrom idle bs := by
  unfold IsScalar at hc
  unfold encodeScalar
  split_ifs with h1 h2 h3
  · have hs : start (ofNat c) = ([c], idle) := by
      unfold start
      rw [toNat_byte (by omega), if_pos h1]
    exact congrArg (fun s => s.1 ++ decodeFrom s.2 bs) hs
  · have hd : c / 64 * 64 + c % 64 = c := by omega
    rw [cons_append, decodeFrom_two (by omega) (by omega), singleton_append,
      decodeFrom_last (by omega) (by omega) (by omega), hd]
  · have hd : (c / 4096 * 64 + c / 64 % 64) * 64 + c % 64 = c := by omega
    rw [cons_append, decodeFrom_three (by omega), cons_append, singleton_append,
      decodeFrom_more (by omega) (by split_ifs <;> omega) (by split_ifs <;> omega),
      decodeFrom_last (by omega) (by omega) (by omega), hd]
  · have hd : ((c / 262144 * 64 + c / 4096 % 64) * 64 + c / 64 % 64) * 64 + c % 64 = c := by
      omega
    rw [cons_append, decodeFrom_four (by omega), cons_append, cons_append, singleton_append,
      decodeFrom_more (by omega) (by split_ifs <;> omega) (by split_ifs <;> omega),
      decodeFrom_more (by omega) (by omega) (by omega),
      decodeFrom_last (by omega) (by omega) (by omega), hd]

theorem decodeFrom_encode (cs : List Nat) (h : ∀ c ∈ cs, IsScalar c) :
    decodeFrom idle (cs.flatMap encodeScalar) = cs := by
  induction cs with
  | nil => rfl
  | cons c cs ih =>
    rw [flatMap_cons, decodeFrom_encodeScalar (h c (mem_cons_self ..)),
      ih (fun c hc => h c (mem_cons_of_mem _ hc))]

theorem units_scalar (h : ¬ (isHigh k ∨ isLow k)) : units (scalar k) = [k] := by
  have hu := k.toNat_lt
  unfold units scalar
  rw [if_neg h, if_pos (by omega), UInt16.ofNat_toNat]

theorem units_replaced (h : isHigh k ∨ isLow k) : units (scalar k) = [0xFFFD] := by
  unfold units scalar
  rw [if_pos h, if_pos (by omega)]
  rfl

theorem length_units_scalar (k : UInt16) : (units (scalar k)).length = 1 := by
  by_cases h : isHigh k ∨ isLow k
  · rw [units_replaced h, length_singleton]
  · rw [units_scalar h, length_singleton]

theorem units_pair (hu : isHigh k) (hv : isLow v) : units (pair k v) = [k, v] := by
  obtain ⟨hu1, hu2⟩ := hu
  obtain ⟨hv1, hv2⟩ := hv
  have h1 : 0xD800 + (pair k v - 0x10000) / 1024 = k.toNat := by
    unfold pair
    omega
  have h2 : 0xDC00 + (pair k v - 0x10000) % 1024 = v.toNat := by
    unfold pair
    omega
  have hl : ¬ pair k v < 0x10000 := by
    unfold pair
    omega
  unfold units
  rw [if_neg hl, h1, h2, UInt16.ofNat_toNat, UInt16.ofNat_toNat]

section

variable (s)

theorem length_units_scalars : ((scalars s).flatMap units).length = s.length := by
  induction s using scalars.induct with
  | case1 => rfl
  | case2 u => simp [scalars, length_units_scalar]
  | case3 u v rest h ih =>
    simp only [scalars, if_pos h, flatMap_cons, units_pair h.1 h.2, length_append, ih,
      length_cons, length_nil]
    omega
  | case4 u v rest h ih =>
    simp only [scalars, if_neg h, flatMap_cons, length_append, length_units_scalar, ih, length_cons]
    omega

/-- A surrogate on its own is lost, everything else survives. -/
theorem units_scalars_iff : (scalars s).flatMap units = s ↔ WellFormed s := by
  have single : ∀ u : UInt16, units (scalar u) = [u] ↔ ¬ (isHigh u ∨ isLow u) := by
    intro u
    refine ⟨fun h hs => ?_, units_scalar⟩
    rw [units_replaced hs] at h
    obtain rfl := head_eq_of_cons_eq h
    revert hs
    decide
  induction s using scalars.induct with
  | case1 => simp [scalars, WellFormed]
  | case2 u => simpa [scalars, WellFormed] using single u
  | case3 u v rest h ih =>
    simp only [scalars, if_pos h, flatMap_cons, units_pair h.1 h.2, WellFormed, ← ih]
    simp
  | case4 u v rest h ih =>
    simp only [scalars, if_neg h, flatMap_cons, WellFormed, ← ih, ← single u]
    constructor
    · intro he
      exact append_inj he (length_units_scalar u)
    · rintro ⟨hu, hr⟩
      rw [hu, hr, singleton_append]

theorem decode_encode : decode (encode s) = (stripMark (scalars s)).flatMap units := by
  unfold decode encode
  rw [decodeFrom_encode _ (scalars_isScalar s)]

theorem scalars_mark : scalars (0xFEFF :: s) = 0xFEFF :: scalars s := by
  cases s with
  | nil => rfl
  | cons v rest =>
    rfl

end

theorem scalar_ne_mark (h : u ≠ 0xFEFF) : scalar u ≠ 0xFEFF := by
  unfold scalar
  split_ifs
  · omega
  · intro he
    exact h (UInt16.toNat_inj.mp he)

theorem stripMark_scalars (h : s.head? ≠ some 0xFEFF) : stripMark (scalars s) = scalars s := by
  cases s with
  | nil => rfl
  | cons u rest =>
    have hu : scalar u ≠ 0xFEFF := scalar_ne_mark (fun he => h (by rw [he, head?_cons]))
    cases rest with
    | nil => rw [scalars, stripMark, if_neg hu]
    | cons v rest =>
      rw [scalars]
      split_ifs
      · have hp : pair u v ≠ 0xFEFF := by
          unfold pair
          omega
        rw [stripMark, if_neg hp]
      · rw [stripMark, if_neg hu]

/-- Text survives exactly when no surrogate stands alone and no byte order mark leads. -/
theorem decode_encode_iff (s : List UInt16) :
    decode (encode s) = s ↔ WellFormed s ∧ s.head? ≠ some 0xFEFF := by
  rw [decode_encode]
  by_cases h : s.head? = some 0xFEFF
  · refine ⟨fun he => ?_, fun hw => absurd h hw.2⟩
    obtain ⟨rest, rfl⟩ : ∃ rest, s = 0xFEFF :: rest := by
      cases s with
      | nil => cases h
      | cons u rest =>
        rw [head?_cons, Option.some.injEq] at h
        exact ⟨rest, by rw [h]⟩
    have hl := congrArg List.length he
    rw [scalars_mark, stripMark, if_pos rfl, length_units_scalars, length_cons] at hl
    omega
  · rw [stripMark_scalars h, units_scalars_iff]
    exact ⟨fun hw => ⟨hw, h⟩, fun hw => hw.1⟩

end TextCodec
