import MatterJs.Foundation.BitString
import MatterJs.Onboarding.Base38

/-!
# The data codewords of a QR code

The text is written in alphanumeric mode into the 19 data codewords of a version 1 symbol.
-/
namespace MatterJs.Onboarding.QrCode

open BitString List Option

def alphabet : Text := textOf "0123456789ABCDEFGHIJKLMNOPQRSTUVWXYZ $%*+-./:"

/-- The character that the error names. -/
structure InvalidCharacter where
  char : UInt16

def codeOf (char : UInt16) : Option Nat := alphabet.findIdx? (· == char)

def getCode (char : UInt16) : Except InvalidCharacter Nat :=
  match codeOf char with
  | none => .error ⟨char⟩
  | some code => .ok code

/-- The loop over the pairs. The second character is read where `index < length - 2`, which is
not so in the last round, of one character or of two. -/
def encodePairs : Text → Except InvalidCharacter (List Bool)
  | [] => .ok []
  | [first] | [first, _] => do
    let code ← getCode first
    .ok (padded 11 (45 * code + 0))
  | first :: second :: third :: data => do
    let code ← getCode first
    let next ← getCode second
    let bits ← encodePairs (third :: data)
    .ok (padded 11 (45 * code + next) ++ bits)

def bytePadding (remainingBytes : Nat) : List Bool :=
  (List.range remainingBytes).flatMap (fun i =>
    if i % 2 = 0 then [true, true, true, false, true, true, false, false]
    else [false, false, false, true, false, false, false, true])

/-- The bits before those of the error correction. -/
def bitString (data : Text) : Except InvalidCharacter (List Bool) := do
  let pairs ← encodePairs data
  let bitCount := 4 + 9 + 11 * ((data.length + 1) / 2) + 4
  let remainingBits := 8 - bitCount % 8
  let remainingBytes := 19 - (bitCount + remainingBits) / 8
  .ok ([false, false, true, false] ++ (padded 9 data.length ++ (pairs ++
    ([false, false, false, false] ++
      (List.replicate remainingBits false ++ bytePadding remainingBytes)))))

/-- The first 19 bytes, which are placed as the data codewords. -/
def dataCodewords (data : Text) : Except InvalidCharacter (List Bool) :=
  (bitString data).map (·.take (19 * 8))

/-! ### The standard's reading -/

/-- Pairs of 11 bits and a single character of 6. -/
def parseCharacters : Nat → List Bool → Option (Text × List Bool)
  | 0, bits => some ([], bits)
  | 1, bits => do
    let (value, bits) ← read 6 bits
    let char ← alphabet[value]?
    some ([char], bits)
  | count + 2, bits => do
    let (value, bits) ← read 11 bits
    let first ← alphabet[value / 45]?
    let second ← alphabet[value % 45]?
    let (text, bits) ← parseCharacters count bits
    some (first :: second :: text, bits)

/-- The terminator is cut short at the end of the codewords, and the padding after it is skipped. -/
def terminated (bits : List Bool) : Bool := (bits.take 4).all (! ·)

def parse (bits : List Bool) : Option Text := do
  let (mode, bits) ← read 4 bits
  let (count, bits) ← read 9 bits
  let (text, bits) ← parseCharacters count bits
  if mode = 2 ∧ terminated bits then some text else none

/-- The mode, the count and the characters fit the codewords. -/
def Capacity (data : Text) : Prop :=
  4 + 9 + 11 * (data.length / 2) + 6 * (data.length % 2) ≤ 19 * 8

def Faithful (data : Text) : Prop :=
  (Capacity data → ∃ bits, dataCodewords data = .ok bits ∧ parse bits = some data) ∧
    (¬ Capacity data → ∃ e, dataCodewords data = .error e)

variable {d : Text} {c : UInt16} {o v : Nat} {b rest : List Bool}

/-! ### Characters -/

theorem code_lt (h : codeOf c = some o) : o < 45 ∧ alphabet[o]? = some c := by
  obtain ⟨hl, hc, -⟩ := findIdx?_eq_some_iff_getElem.mp h
  exact ⟨hl, by simpa [getElem?_eq_getElem hl] using hc⟩

theorem codeOf_getElem : ∀ o < 45, alphabet[o]?.bind codeOf = some o := by
  decide

/-- A code is that of the character where it is its position. -/
theorem getElem_eq_iff (h : codeOf c = some o) : alphabet[v]? = some c ↔ v = o := by
  refine ⟨fun hv => ?_, fun hv => hv ▸ (code_lt h).2⟩
  have hl : v < 45 := (List.getElem?_eq_some_iff.mp hv).1
  have := codeOf_getElem v hl
  rw [hv, bind_some, h] at this
  exact (Option.some.inj this).symm

theorem exists_codeOf (h : c ∈ alphabet) : ∃ o, codeOf c = some o := by
  obtain ⟨i, hi, rfl⟩ := getElem_of_mem h
  have := codeOf_getElem i hi
  rw [getElem?_eq_getElem hi] at this
  exact ⟨i, this⟩

/-! ### Reading what was written -/

/-- The characters and a terminator are read off the bits. -/
def Reads (d : Text) (b : List Bool) : Prop :=
  ∃ rest, parseCharacters d.length b = some (d, rest) ∧ terminated rest

theorem reads_nil : Reads [] b ↔ terminated b := by
  simp [Reads, parseCharacters]

theorem reads_singleton (h : codeOf c = some o) (hv : v < 2 ^ 6) :
    Reads [c] (toBits 6 v ++ b) ↔ v = o ∧ terminated b := by
  rw [← getElem_eq_iff h]
  simp [Reads, parseCharacters, read_toBits hv, bind_eq_some_iff, and_assoc]

theorem reads_cons_cons {c' : UInt16} {o' : Nat} (h : codeOf c = some o)
    (h' : codeOf c' = some o') (hv : v < 2 ^ 11) :
    Reads (c :: c' :: d) (toBits 11 v ++ b) ↔ (v / 45 = o ∧ v % 45 = o') ∧ Reads d b := by
  rw [← getElem_eq_iff h, ← getElem_eq_iff h']
  simp only [Reads, length_cons, parseCharacters, read_toBits hv, bind_eq_bind,
    bind_some, bind_eq_some_iff, Option.some.injEq, Prod.mk.injEq, List.cons.injEq]
  constructor
  · rintro ⟨rest, ⟨_, ha, _, hb, ⟨t, _⟩, hp, ⟨rfl, rfl, rfl⟩, rfl⟩, ht⟩
    exact ⟨⟨ha, hb⟩, _, hp, ht⟩
  · rintro ⟨⟨ha, hb⟩, rest, hp, ht⟩
    exact ⟨rest, ⟨_, ha, _, hb, (d, rest), hp, ⟨rfl, rfl, rfl⟩, rfl⟩, ht⟩

/-- The last character is read back where its code leaves nothing in the bits after the first
six. -/
theorem single_codes : ∀ o < 45, (45 * o / 32 = o ∧ ((toBits 5 (45 * o)).take 4).all (! ·) ↔
    o = 0) ∧ (45 * o / 32 = o ∧ ((toBits 5 (45 * o)).take 1).all (! ·) ↔ o = 0 ∨ o = 1) := by
  decide

/-- Which texts are read back from the first `m` bits of their pairs and a terminator. -/
theorem reads_pairs {m : Nat} (h : encodePairs d = .ok b) (hn : d ≠ [])
    (ha : ∀ c ∈ d, c ∈ alphabet) (ho : 11 * (d.length / 2) + 10 ≤ m ∨
      if d.length % 2 = 0 then 11 * (d.length / 2) + 4 ≤ m else m = 11 * (d.length / 2) + 7) :
    Reads d ((b ++ ([false, false, false, false] ++ rest)).take m) ↔
      ∃ c, d.getLast? = some c ∧ (codeOf c = some 0 ∨
        d.length % 2 = 1 ∧ m = 11 * (d.length / 2) + 7 ∧ codeOf c = some 1) := by
  fun_induction encodePairs d generalizing b m with
  | case1 => exact absurd rfl hn
  | case2 first =>
    obtain ⟨o, hc⟩ := exists_codeOf (ha first (by simp))
    have hl := (code_lt hc).1
    obtain rfl : toBits 6 (45 * o / 32) ++ toBits 5 (45 * o) = b := by
      refine (toBits_add 6 5 (45 * o)).symm.trans ?_
      rw [← padded_eq (by omega)]
      simpa [getCode, hc, bind, Except.bind] using h
    have ho : 10 ≤ m ∨ m = 7 := by simpa using ho
    rw [append_assoc, take_append, length_toBits,
      take_of_length_le (by rw [length_toBits]; omega), reads_singleton hc (by omega),
      terminated, take_take]
    obtain ⟨h4, h1⟩ := single_codes o hl
    rcases ho with hm | rfl
    · rw [show min 4 (m - 6) = 4 by omega, take_append_of_le_length (by simp), h4]
      simp [hc, show m ≠ 7 by omega]
    · rw [show min 4 (7 - 6) = 1 from rfl, take_append_of_le_length (by simp), h1]
      simp [hc]
  | case3 first s =>
    obtain ⟨o, hc⟩ := exists_codeOf (ha first (by simp))
    obtain ⟨code', hcode'⟩ := exists_codeOf (ha s (by simp))
    have hl := (code_lt hc).1
    obtain rfl : toBits 11 (45 * o) = b := by
      rw [← padded_eq (by omega)]
      simpa [getCode, hc, bind, Except.bind] using h
    have hm : 4 ≤ m - 11 := by simp at ho; omega
    rw [take_append, length_toBits, take_of_length_le (by simp; omega),
      reads_cons_cons hc hcode' (by omega), reads_nil, terminated, take_take,
      Nat.min_eq_left hm, take_append_of_le_length (by simp)]
    simp [hcode']
    omega
  | case4 first s t d ih =>
    obtain ⟨o, hc⟩ := exists_codeOf (ha first (by simp))
    obtain ⟨code', hcode'⟩ := exists_codeOf (ha s (by simp))
    have hl := (code_lt hc).1
    have hlt' := (code_lt hcode').1
    obtain ⟨p, hi, rfl⟩ : ∃ p, encodePairs (t :: d) = .ok p ∧
        toBits 11 (45 * o + code') ++ p = b := by
      rw [← padded_eq (by omega)]
      cases hp : encodePairs (t :: d) <;> simp_all [getCode, bind, Except.bind]
    simp only [length_cons] at ho ih ⊢
    have hm : 11 ≤ m := by split_ifs at ho <;> omega
    rw [append_assoc, take_append, length_toBits,
      take_of_length_le (by rwa [length_toBits]), reads_cons_cons hc hcode' (by omega),
      ih hi (by simp) (fun c he => ha c (by simp [he])) (by grind)]
    grind

theorem exists_encodePairs (ha : ∀ c ∈ d, c ∈ alphabet) : ∃ b, encodePairs d = .ok b := by
  have hg : ∀ c ∈ d, ∃ o, getCode c = .ok o := fun c hm => by
    obtain ⟨o, hc⟩ := exists_codeOf (ha c hm)
    exact ⟨o, by rw [getCode, hc]⟩
  clear ha
  fun_induction encodePairs d with
  | case1 => exact ⟨[], rfl⟩
  | case2 first | case3 first =>
    obtain ⟨o, hc⟩ := hg first (by simp)
    exact ⟨_, by rw [hc]; rfl⟩
  | case4 first s t d ih =>
    obtain ⟨o, hc⟩ := hg first (by simp)
    obtain ⟨code', hcode'⟩ := hg s (by simp)
    obtain ⟨b, hb⟩ := ih (fun c hm => hg c (by simp [hm]))
    exact ⟨_, by rw [hc, hcode', hb]; rfl⟩

theorem parse_eq_some (h : d.length < 2 ^ 9) :
    parse ([false, false, true, false] ++ (padded 9 d.length ++ b)) = some d ↔ Reads d b := by
  rw [padded_eq h, parse, show [false, false, true, false] = toBits 4 2 from rfl,
    read_toBits (by decide)]
  simp [read_toBits h, Reads, bind_eq_some_iff]

/-- A text is read back from its codewords exactly where it has at most 25 characters and the last
one is a 0, or a 1 that ends the codewords. -/
theorem faithful_iff (ha : ∀ c ∈ d, c ∈ alphabet) :
    Faithful d ↔ d.length ≤ 25 ∧ (d = [] ∨ ∃ c, d.getLast? = some c ∧
      (codeOf c = some 0 ∨ d.length = 25 ∧ codeOf c = some 1)) := by
  obtain ⟨p, hp⟩ := exists_encodePairs ha
  obtain ⟨tail, hw⟩ : ∃ tail, bitString d = .ok ([false, false, true, false] ++
      (padded 9 d.length ++ (p ++ ([false, false, false, false] ++ tail)))) :=
    ⟨_, by rw [bitString, hp]; rfl⟩
  have hd : ∀ b, dataCodewords d = .ok b ↔ ([false, false, true, false] ++
      (padded 9 d.length ++ (p ++ ([false, false, false, false] ++ tail)))).take (19 * 8) =
        b := fun b => by simp [dataCodewords, hw, Except.map]
  have hc : Capacity d ↔ d.length ≤ 25 := by
    unfold Capacity
    omega
  by_cases hl : d.length ≤ 25
  · have h9 : d.length < 2 ^ 9 := by omega
    have hr : Faithful d ↔
        Reads d ((p ++ ([false, false, false, false] ++ tail)).take 139) := by
      rw [padded_eq h9, take_append, take_append, length_toBits, ← padded_eq h9,
        take_of_length_le (by simp), take_of_length_le (by simp [padded_eq h9])] at hd
      simp only [Faithful, hc, hl, forall_const, not_true_eq_false, IsEmpty.forall_iff, and_true,
        hd, exists_eq_left']
      exact parse_eq_some h9
    rw [hr]
    by_cases hn : d = []
    · subst hn
      cases hp
      simp [reads_nil, terminated]
    · rw [reads_pairs hp hn ha (by split_ifs <;> omega)]
      grind
  · simp [Faithful, hc, hl, dataCodewords, hw, Except.map]

theorem faithful_A0 : Faithful (textOf "A0") := by
  have ha : 65 ∈ alphabet ∧ 48 ∈ alphabet := by decide
  exact (faithful_iff (by simpa [textOf] using ha)).mpr ⟨by decide, .inr ⟨48, rfl, .inl rfl⟩⟩

/-- The second character of a last pair is lost. -/
theorem parse_codewords_AB :
    (dataCodewords (textOf "AB")).toOption.bind parse = some (textOf "A0") := by
  decide +kernel

end MatterJs.Onboarding.QrCode
