import Mathlib.Dynamics.PeriodicPts.Defs
import Mathlib.Tactic.Common

/-!
# Reed-Solomon error correction

Multiplying by 2 is linear over exclusive or, and every other product is a repetition of it. So the
value of a polynomial at a power of 2 is linear in its coefficients.
-/
namespace MatterJs.Math

open List Function UInt8

def size : Nat := 255

/-- The loop of `multiplyNoLut`. Each round halves `y`, so `y` rounds are enough. -/
def multiplyRounds : (fuel x y result : Nat) → Nat
  | 0, _, _, result => result
  | fuel + 1, x, y, result =>
    if y = 0 then result
    else
      let doubled := x <<< 1
      multiplyRounds fuel (if doubled > size then doubled ^^^ 0x11d else doubled) (y >>> 1)
        (if y &&& 1 ≠ 0 then result ^^^ x else result)

def multiplyNoLut (x y : Nat) : Nat := multiplyRounds y x y 0

/-- The first loop of the constructor. -/
def powers : (count x : Nat) → List UInt8
  | 0, _ => []
  | count + 1, x => ofNat x :: powers count (multiplyNoLut x 2)

/-- The second half of the table repeats the first. -/
def exp : List UInt8 := powers size 1 ++ powers size 1

def log (x : UInt8) : Nat := (powers size 1).idxOf x

def multiply (x y : UInt8) : UInt8 :=
  if x = 0 ∨ y = 0 then 0 else exp.getD ((log x + log y) % size) 0

def power (x : UInt8) (power : Nat) : UInt8 := exp.getD ((log x * power) % size) 0

/-- `buffer[i] ^= terms[i]` for every term. -/
def xorInto : (buffer terms : List UInt8) → List UInt8
  | b :: buffer, t :: terms => (b ^^^ t) :: xorInto buffer terms
  | buffer, [] => buffer
  | [], _ => []

/-- The loop over `q`. An entry of the result that is not set counts as 0. The last coefficient of
`p` is not 0 where this runs, so that the last entry is always set. -/
def addProducts (p : List UInt8) : (q result : List UInt8) → List UInt8
  | [], result => result
  | y :: q, result =>
    let terms := p.map (fun x => if x = 0 then 0 else exp.getD (log x + log y) 0)
    match if y = 0 then result else xorInto result terms with
    | [] => []
    | first :: rest => first :: addProducts p q rest

def multiplyPolynom (p q : List UInt8) : List UInt8 :=
  addProducts p q (replicate (p.length + q.length - 1) 0)

def generatePolynom : (ecLength : Nat) → List UInt8
  | 0 => [1]
  | i + 1 => multiplyPolynom (generatePolynom i) [1, power 2 i]

/-- The loop over the data. What is before `i` is not touched again. -/
def divide (generator : List UInt8) : (length : Nat) → (buffer : List UInt8) → List UInt8
  | 0, buffer => buffer
  | _, [] => []
  | length + 1, coef :: buffer =>
    let buffer :=
      if coef = 0 then coef :: buffer
      else xorInto (coef :: buffer) (generator.map (fun x => multiply x coef))
    divide generator length buffer.tail

def computeErrorCorrection (data : List UInt8) (ecLength : Nat) : Except String (List UInt8) :=
  if data.length + ecLength > size then .error "Message is too long"
  else
    let generator := generatePolynom ecLength
    .ok (divide generator data.length (data ++ replicate (generator.length - 1) 0))

/-! ### The field

The bits of a byte are the coefficients of a polynomial modulo `0x11d`. Nothing here refers to the
tables. -/

def shifted (x : UInt8) : UInt8 := (x <<< 1) ^^^ (if x.toBitVec.msb then 0x1d else 0)

/-- The sum of `x` shifted by each bit of `y`, from the highest bit down. -/
def product (x y : UInt8) : UInt8 :=
  (range 8).foldr (fun i sum => shifted sum ^^^ (if y.toNat.testBit i then x else 0)) 0

/-- The value of a polynomial with its highest coefficient first. -/
def evaluate (p : List UInt8) (x : UInt8) : UInt8 :=
  p.foldl (fun value coefficient => product value x ^^^ coefficient) 0

/-! ### Multiplying by powers of 2 -/

def double (x : UInt8) : UInt8 := ofNat (multiplyNoLut x.toNat 2)

/-- What is computed of the field. The mask says that every byte but 0 is a power of 2. -/
theorem computed : (∀ n < 256, multiplyNoLut n 2 = (double (ofNat n)).toNat ∧
      double (ofNat n) = shifted (ofNat n) ∧ (n ≠ 0 → (2 ^ 256 - 2).testBit n) ∧
      product 2 (ofNat n) = double (ofNat n) ∧ product 1 (ofNat n) = ofNat n ∧
      product 0 (ofNat n) = 0) ∧
    double^[255] 1 = 1 ∧ double 0 = 0 ∧ log 1 = 0 ∧ log 2 = 1 ∧ 0 ∉ powers size 1 ∧
    (powers size 1).foldl (fun mask x => mask ||| 1 <<< x.toNat) 0 = 2 ^ 256 - 2 := by
  decide +kernel

theorem double_cycle : double^[255] 1 = 1 :=
  computed.2.1

theorem computed_at (x : UInt8) : double x = shifted x ∧ (x.toNat ≠ 0 →
    (2 ^ 256 - 2).testBit x.toNat) ∧ product 2 x = double x ∧
    product 1 x = x ∧ product 0 x = 0 := by
  simpa using (computed.1 x.toNat x.toNat_lt).2

theorem double_xor (x y : UInt8) : double (x ^^^ y) = double x ^^^ double y := by
  have hr : ∀ a b : Bool, (if a ^^ b then 0x1d else 0 : UInt8) =
      (if a then 0x1d else 0) ^^^ (if b then 0x1d else 0) := by
    decide
  simp only [(computed_at _).1, shifted]
  rw [UInt8.shiftLeft_xor, UInt8.toBitVec_xor, BitVec.msb_xor, hr]
  ac_rfl

theorem iterate_double_xor (k : Nat) (x y : UInt8) :
    double^[k] (x ^^^ y) = double^[k] x ^^^ double^[k] y := by
  induction k generalizing x y with
  | zero => rfl
  | succ k ih => rw [iterate_succ_apply, double_xor, ih]; rfl

theorem iterate_double_zero (k : Nat) : double^[k] 0 = 0 :=
  iterate_fixed computed.2.2.1 k

theorem iterate_comm (i j : Nat) (x : UInt8) :
    double^[i] (double^[j] x) = double^[j] (double^[i] x) :=
  Function.Commute.iterate_iterate_self double i j x

/-! ### The tables -/

theorem getElem?_powers {i n : Nat} (hi : i < n) (x : UInt8) :
    (powers n x.toNat)[i]? = some (double^[i] x) := by
  induction n generalizing i x with
  | zero => omega
  | succ n ih =>
    cases i with
    | zero => simp [powers]
    | succ i =>
      have hd := (computed.1 x.toNat x.toNat_lt).1
      rw [UInt8.ofNat_toNat] at hd
      rw [powers, getElem?_cons_succ, hd, ih (by omega), iterate_succ_apply]

theorem length_powers (count x : Nat) : (powers count x).length = count := by
  induction count generalizing x with
  | zero => rfl
  | succ count ih => simp [powers, ih]

theorem getD_exp {k : Nat} (hk : k < 510) : exp.getD k 0 = double^[k] 1 := by
  have hp : ∀ {i}, i < size → (powers size 1)[i]? = some (double^[i] 1) :=
    fun hi => getElem?_powers hi 1
  rw [getD_eq_getElem?_getD, exp]
  by_cases h : k < size
  · rw [getElem?_append_left (by rwa [length_powers]), hp h]
    rfl
  · unfold size at h
    rw [getElem?_append_right (by rw [length_powers]; unfold size; omega), length_powers,
      hp (by unfold size; omega), Option.getD_some]
    obtain ⟨i, rfl⟩ := Nat.exists_eq_add_of_le (Nat.le_of_not_lt h)
    rw [size, Nat.add_sub_cancel_left, Nat.add_comm, iterate_add_apply, double_cycle]

theorem mem_of_testBit {l : List UInt8} {mask n : Nat} (h : (l.foldl (fun mask x =>
    mask ||| 1 <<< x.toNat) mask).testBit n) : mask.testBit n ∨ ofNat n ∈ l := by
  induction l generalizing mask with
  | nil => exact .inl h
  | cons x l ih =>
    rcases ih h with hm | he
    · rw [Nat.testBit_or, Bool.or_eq_true, Nat.one_shiftLeft, Nat.testBit_two_pow] at hm
      rcases hm with hm | hm
      · exact .inl hm
      · have : x.toNat = n := by simpa using hm
        exact .inr (by simp [← this])
    · exact .inr (mem_cons_of_mem x he)

theorem log_spec {x : UInt8} (hx : x ≠ 0) : log x < 255 ∧ double^[log x] 1 = x := by
  have hm : x ∈ powers size 1 := by
    have hn : x.toNat ≠ 0 := fun h => hx (UInt8.toNat_inj.mp h)
    have ht := (computed_at x).2.1 hn
    rw [← computed.2.2.2.2.2.2] at ht
    simpa using (mem_of_testBit ht).resolve_left (by simp)
  have hl := idxOf_lt_length_iff.mpr hm
  rw [length_powers] at hl
  have hg := getElem?_powers hl 1
  exact ⟨hl, Option.some.inj (hg.symm.trans (getElem?_idxOf hm))⟩

/-! ### Products -/

/-- Powers of 2 that are the same multiply alike. -/
theorem iterate_congr {i j : Nat} (h : double^[i] 1 = double^[j] 1) (x : UInt8) :
    double^[i] x = double^[j] x := by
  by_cases hx : x = 0
  · rw [hx, iterate_double_zero, iterate_double_zero]
  · rw [← (log_spec hx).2, iterate_comm, h, iterate_comm]

variable {x y : UInt8}

theorem product_eq (hy : y ≠ 0) :
    (if x = 0 then 0 else exp.getD (log x + log y) 0) = double^[log y] x := by
  split_ifs with hx
  · rw [hx, iterate_double_zero]
  · have := (log_spec hx).1
    have := (log_spec hy).1
    rw [getD_exp (by omega), Nat.add_comm, iterate_add_apply, (log_spec hx).2]

theorem multiply_eq (hy : y ≠ 0) : multiply x y = double^[log y] x := by
  rw [← product_eq hy, multiply]
  by_cases hx : x = 0
  · simp [hx]
  · have h₁ := (log_spec hx).1
    have h₂ := (log_spec hy).1
    rw [if_neg (by simp [hx, hy]), if_neg hx, getD_exp (by unfold size at *; omega),
      getD_exp (by omega)]
    exact Function.IsPeriodicPt.iterate_mod_apply double_cycle _

theorem power_two (i : Nat) : power 2 i = double^[i] 1 ∧ power 2 i ≠ 0 := by
  have hl : log 2 = 1 := computed.2.2.2.2.1
  have hm : i % size < size := Nat.mod_lt i (by decide)
  have hp : power 2 i = double^[i % size] 1 := by
    rw [power, hl, Nat.one_mul, getD_exp (by unfold size at *; omega)]
  refine ⟨hp.trans (Function.IsPeriodicPt.iterate_mod_apply double_cycle i), fun h0 => ?_⟩
  have he := mem_of_getElem? (getElem?_powers hm 1)
  rw [← hp, h0] at he
  exact computed.2.2.2.2.2.1 he

theorem product_double (x y : UInt8) : product (double x) y = double (product x y) := by
  unfold product
  induction range 8 with
  | nil => exact computed.2.2.1.symm
  | cons i l ih =>
    rw [foldr_cons, foldr_cons, ih, double_xor, ← (computed_at _).1, ← (computed_at _).1]
    split_ifs
    · rfl
    · rw [computed.2.2.1]

/-- Every byte is 0 or a power of 2, and those of the second factor can be put on the first. -/
theorem product_iterate (x : UInt8) (i : Nat) : product x (double^[i] 1) = double^[i] x := by
  by_cases hx : x = 0
  · rw [hx, iterate_double_zero]
    exact (computed_at _).2.2.2.2
  · have hp : ∀ k y, product (double^[k] 1) y = double^[k] y := by
      intro k y
      induction k with
      | zero => exact (computed_at y).2.2.2.1
      | succ k ih => rw [iterate_succ_apply', product_double, ih, iterate_succ_apply']
    rw [← (log_spec hx).2, hp, iterate_comm]

theorem iterate_product_two (i : Nat) : (product 2)^[i] 1 = double^[i] 1 := by
  rw [funext fun x => (computed_at x).2.2.1]

/-! ### Values -/

/-- The value at the power `i` of 2, where `v` is the value of the coefficients before. -/
def valueAt (i : Nat) (p : List UInt8) (v : UInt8) : UInt8 :=
  p.foldl (fun value coefficient => double^[i] value ^^^ coefficient) v

variable {p q f ts : List UInt8} {c v w : UInt8} {i : Nat} {g : List UInt8}

theorem evaluate_power (p : List UInt8) (i : Nat) :
    evaluate p ((product 2)^[i] 1) = valueAt i p 0 := by
  simp [evaluate, valueAt, iterate_product_two, product_iterate]

theorem valueAt_cons : valueAt i (c :: p) v = valueAt i p (double^[i] v ^^^ c) := rfl

theorem valueAt_append : valueAt i (p ++ q) v = valueAt i q (valueAt i p v) := foldl_append

theorem valueAt_cons_zero : valueAt i (c :: p) 0 = valueAt i p c := by
  rw [valueAt_cons, iterate_double_zero, UInt8.zero_xor]

theorem valueAt_map (k : Nat) : valueAt i (p.map double^[k]) (double^[k] v) =
    double^[k] (valueAt i p v) := by
  induction p generalizing v with
  | nil => rfl
  | cons c p ih =>
    rw [map_cons, valueAt_cons, iterate_comm, ← iterate_double_xor, ih, valueAt_cons]

theorem step_xor (b t : UInt8) : double^[i] (v ^^^ w) ^^^ (b ^^^ t) =
    (double^[i] v ^^^ b) ^^^ (double^[i] w ^^^ t) := by
  rw [iterate_double_xor]
  ac_rfl

theorem xorInto_nil : xorInto p [] = p := by
  cases p <;> rfl

/-- Terms that are added at the front of `buffer` add their value, as far up as they stand. -/
theorem valueAt_xorInto (h : ts.length ≤ f.length) : valueAt i (xorInto f ts) (v ^^^ w) =
    valueAt i f v ^^^ double^[i * (f.length - ts.length)] (valueAt i ts w) := by
  induction f generalizing ts v w with
  | nil =>
    cases eq_nil_of_length_eq_zero (Nat.le_zero.mp h)
    rfl
  | cons b f ih =>
    cases ts with
    | nil =>
      have hs := step_xor (i := i) (v := v) (w := w) b 0
      have hb := ih (v := double^[i] v ^^^ b) (w := double^[i] w) (nil_sublist _).length_le
      rw [UInt8.xor_zero, UInt8.xor_zero] at hs
      rw [xorInto_nil, ← hs] at hb
      exact hb.trans (congrArg _ (iterate_add_apply double _ i w).symm)
    | cons t ts =>
      rw [xorInto, valueAt_cons, valueAt_cons, valueAt_cons, step_xor,
        ih (Nat.le_of_succ_le_succ h), length_cons, length_cons, Nat.add_sub_add_right]

theorem length_xorInto (h : ts.length ≤ f.length) : (xorInto f ts).length = f.length := by
  fun_induction xorInto f ts with
  | case1 b f t ts ih => exact congrArg (· + 1) (ih (Nat.le_of_succ_le_succ h))
  | case2 | case3 => rfl

/-! ### The generator -/

theorem map_multiply (hc : c ≠ 0) : p.map (fun x => multiply x c) = p.map double^[log c] :=
  map_congr_left fun _ _ => multiply_eq hc

theorem xorInto_zeros (p zeros : List UInt8) :
    xorInto (replicate p.length 0 ++ zeros) p = p ++ zeros := by
  induction p with
  | nil => cases zeros <;> rfl
  | cons c p ih =>
    rw [length_cons, replicate_succ, cons_append, xorInto, ih, UInt8.zero_xor]
    rfl

theorem multiplyPolynom_pair (hc : c ≠ 0) (b : UInt8) (p : List UInt8) :
    multiplyPolynom (b :: p) [1, c] = b :: xorInto (p ++ [0]) ((b :: p).map double^[log c]) := by
  have h1 : log 1 = 0 := computed.2.2.2.1
  have ht : ∀ {y : UInt8}, y ≠ 0 → (b :: p).map (fun x => if x = 0 then 0 else
      exp.getD (log x + log y) 0) = (b :: p).map double^[log y] :=
    fun hy => map_congr_left fun _ _ => product_eq hy
  have hz : replicate ((b :: p).length + 1) (0 : UInt8) =
      replicate (b :: p).length 0 ++ [0] := replicate_succ'
  rw [multiplyPolynom, addProducts, ht (by decide), h1, if_neg (by decide)]
  rw [show (b :: p).length + [1, c].length - 1 = (b :: p).length + 1 from rfl, hz]
  rw [show (b :: p).map double^[0] = b :: p from map_id _, xorInto_zeros]
  simp only [cons_append, addProducts]
  rw [if_neg hc, ht hc]
  cases xorInto (p ++ [0]) ((b :: p).map double^[log c]) <;> rfl

/-- The generator has the roots `2^0` to `2^(ecLength - 1)`. -/
theorem generatePolynom_spec (e : Nat) : ∃ rest, generatePolynom e = 1 :: rest ∧
    rest.length = e ∧ ∀ i < e, valueAt i (1 :: rest) 0 = 0 := by
  induction e with
  | zero => exact ⟨[], rfl, rfl, by simp⟩
  | succ j ih =>
    obtain ⟨rest, hg, hl, hr⟩ := ih
    obtain ⟨hp, h0⟩ := power_two j
    have he : ((1 :: rest).map double^[log (power 2 j)]).length ≤ (rest ++ [0]).length := by
      simp
    refine ⟨_, by rw [generatePolynom, hg, multiplyPolynom_pair h0], ?_, fun i hi => ?_⟩
    · rw [length_xorInto he, length_append, hl]
      rfl
    · have hv := valueAt_xorInto (i := i) (v := 1) (w := 0) he
      have hm := valueAt_map (p := 1 :: rest) (i := i) (v := 0) (log (power 2 j))
      rw [iterate_double_zero, iterate_congr ((log_spec h0).2.trans hp)] at hm
      rw [UInt8.xor_zero, hm] at hv
      have hs : (rest ++ [0]).length - ((1 :: rest).map double^[log (power 2 j)]).length = 0 := by
        simp
      have ha : valueAt i (rest ++ [0]) 1 = double^[i] (valueAt i (1 :: rest) 0) := by
        rw [← valueAt_cons_zero, ← cons_append, valueAt_append]
        exact UInt8.xor_zero
      rw [hs, ha] at hv
      rw [valueAt_cons_zero, hv]
      -- the old roots are roots of both terms, at the new one the terms are the same
      rcases Nat.lt_succ_iff_lt_or_eq.mp hi with hi | rfl
      · rw [hr i hi, iterate_double_zero, iterate_double_zero, iterate_double_zero]
        rfl
      · exact UInt8.xor_self

/-! ### The division -/

/-- One round clears the first coefficient and keeps the value at the roots. -/
theorem round_spec (h : g.length ≤ f.length) :
    let next := if c = 0 then c :: f
      else xorInto (c :: f) ((1 :: g).map (fun x => multiply x c))
    next.tail.length = f.length ∧ ∀ i, valueAt i (1 :: g) 0 = 0 →
      valueAt i next.tail 0 = valueAt i (c :: f) 0 := by
  by_cases hc : c = 0
  · rw [if_pos hc, hc]
    exact ⟨rfl, fun i _ => valueAt_cons_zero.symm⟩
  · rw [if_neg hc, map_multiply hc]
    have hl : ((1 :: g).map double^[log c]).length ≤ (c :: f).length := by simpa
    refine ⟨by rw [length_tail, length_xorInto hl]; rfl, fun i hg => ?_⟩
    have hv := valueAt_xorInto (i := i) (v := 0) (w := 0) hl
    have hm := valueAt_map (p := 1 :: g) (i := i) (v := 0) (log c)
    rw [iterate_double_zero, hg, iterate_double_zero] at hm
    rw [hm, iterate_double_zero, UInt8.xor_zero, UInt8.xor_zero, map_cons, xorInto,
      (log_spec hc).2, UInt8.xor_self, valueAt_cons_zero] at hv
    exact hv

theorem divide_spec {l : Nat} (h : l + g.length ≤ f.length) :
    (divide (1 :: g) l f).length = f.length - l ∧ ∀ i, valueAt i (1 :: g) 0 = 0 →
        valueAt i (divide (1 :: g) l f) 0 = valueAt i f 0 := by
  fun_induction divide (1 :: g) l f with
  | case1 => exact ⟨rfl, fun _ _ => rfl⟩
  | case2 l => exact ⟨(Nat.zero_sub l).symm, fun _ _ => rfl⟩
  | case3 l c f next ih =>
    rw [length_cons] at h
    obtain ⟨hl, hv⟩ := round_spec (c := c) (show g.length ≤ f.length by omega)
    obtain ⟨il, iv⟩ := ih (hl ▸ (by omega))
    exact ⟨by rw [il, hl, length_cons]; omega, fun i hg => (iv i hg).trans (hv i hg)⟩

theorem codeword_roots (data : List UInt8) {ecLength : Nat} (h : data.length + ecLength ≤ 255) :
    ∃ ec, computeErrorCorrection data ecLength = .ok ec ∧ ec.length = ecLength ∧
      ∀ i < ecLength, evaluate (data ++ ec) ((product 2)^[i] 1) = 0 := by
  obtain ⟨rest, hg, hl, hr⟩ := generatePolynom_spec ecLength
  have hb : data.length + rest.length ≤ (data ++ replicate ecLength (0 : UInt8)).length := by
    simp [hl]
  obtain ⟨hd, hv⟩ := divide_spec hb
  rw [length_append, length_replicate, Nat.add_sub_cancel_left] at hd
  refine ⟨divide (1 :: rest) data.length (data ++ replicate ecLength 0), ?_, hd, fun i hi => ?_⟩
  · rw [computeErrorCorrection, if_neg (show ¬ _ > size from Nat.not_lt.mpr h), hg]
    simp [hl]
  · have hv := hv i (hr i hi)
    generalize divide _ _ _ = ec at hd hv
    -- adding the remainder to the zeros at the end of the buffer
    have hz := xorInto_zeros ec []
    rw [hd, append_nil, append_nil] at hz
    have hx := valueAt_xorInto (i := i) (v := valueAt i data 0) (w := 0)
      (show ec.length ≤ (replicate ecLength (0 : UInt8)).length by simp [hd])
    rw [hz, UInt8.xor_zero, hv, length_replicate, hd, Nat.sub_self] at hx
    rw [evaluate_power, valueAt_append, hx, ← valueAt_append]
    exact UInt8.xor_self

theorem codeword_roots_qr : ∃ ec, computeErrorCorrection [0x41, 0x12] 7 = .ok ec ∧ ec.length = 7 ∧
    ∀ i < 7, evaluate ([0x41, 0x12] ++ ec) ((product 2)^[i] 1) = 0 :=
  codeword_roots [0x41, 0x12] (by decide)

end MatterJs.Math
