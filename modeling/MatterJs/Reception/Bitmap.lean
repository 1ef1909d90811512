import MatterJs.Foundation.ReplayWindow
import MatterJs.Reception.State

/-! The bitmap is the top of an abstract replay window, at every jump size. -/
namespace MatterJs.Reception

open JsInt32 ReplayWindow Window

variable {b d : Int} {w : Window}

/-- Bit `i` tells whether the counter `i + 1` below the top counts as received. -/
def Represents (b : Int) (w : Window) : Prop :=
  ∀ i : Nat, i < 32 → (bit b i ↔ w.Known (w.top - 1 - i))

theorem bit_allOnes {i : Nat} (hi : i < 32) : bit 0xffffffff i := by
  have h : toInt32 0xffffffff = BitVec.allOnes 32 := by decide
  simpa only [bit, h, BitVec.getLsbD_allOnes, decide_eq_true_eq] using hi

theorem represents_anchored (a : Int) : Represents 0xffffffff (anchored a) := by
  intro i hi
  simp only [bit_allOnes hi, true_iff]
  exact .inl (by simp [anchored]; omega)

theorem represents_opened (a : Int) : Represents 0xffffffff (opened a) := by
  intro i hi
  simp only [bit_allOnes hi, true_iff]
  exact .inl (by simp [opened]; omega)

theorem isCounterKnownInBitmap_iff (h : Represents b w) (hl : -32 ≤ d) (he : d < 0) :
    isCounterKnownInBitmap b d ↔ w.Known (w.top + d) := by
  obtain ⟨n, rfl⟩ : ∃ n : Nat, d = -(n : Int) - 1 := ⟨(-d - 1).toNat, by omega⟩
  have hn : n < 32 := by omega
  have hk := h n hn
  rw [show w.top + (-(n : Int) - 1) = w.top - 1 - n by omega, ← hk,
    ← bitAnd_one_shiftLeft_ne_zero b hn]
  simp only [isCounterKnownInBitmap, show -(-(n : Int) - 1) - 1 = n by omega, decide_eq_true_eq]

/-- A late counter sets its own bit and leaves the others. -/
theorem represents_late (h : Represents b w) (hl : -32 ≤ d) (hg : d < 0)
    (hk : ¬ w.Known (w.top + d)) :
    Represents (calculateMessageCounterBitmap b d) (w.insert (w.top + d) hk) := by
  obtain ⟨n, rfl⟩ : ∃ n : Nat, d = -(n : Int) - 1 := ⟨(-d - 1).toNat, by omega⟩
  have hn : n < 32 := by omega
  intro i hi
  rw [insert_top_below hk (by omega), known_insert hk, ← h i hi]
  simp only [calculateMessageCounterBitmap, hg, if_true, bit_toUint32, bit_bitOr,
    show -(-(n : Int) - 1) - 1 = n by omega, bit_one_shiftLeft hn hi, Bool.or_eq_true,
    decide_eq_true_eq]
  constructor
  · rintro (hb | rfl)
    · exact .inr hb
    · exact .inl (by omega)
  · rintro (he | hb)
    · exact .inr (by omega)
    · exact .inl hb

/-- The bits after a jump: the old window shifted, the old maximum, nothing else. -/
theorem bit_forward {n : Nat} (hn : 0 < n) {i : Nat} (hi : i < 32) :
    bit (calculateMessageCounterBitmap b n) i ↔ (n ≤ i ∧ bit b (i - n)) ∨ i + 1 = n := by
  have ho : ¬ ((n : Int) < 0) := by omega
  have hp : (0 : Int) < n := by omega
  have hs : msgCounterWindowSize = 32 := rfl
  simp only [calculateMessageCounterBitmap, ho, if_false, hp, if_true, bit_toUint32, hs]
  by_cases he : (n : Int) ≤ 32
  · have hn1 : n - 1 < 32 := by omega
    simp only [he, if_true, bit_bitOr, show (n : Int) - 1 = ((n - 1 : Nat) : Int) by omega,
      bit_one_shiftLeft hn1 hi]
    by_cases hl : (n : Int) < 32
    · simp [hl, bit_shiftLeft b (show n < 32 by omega) hi, show i = n - 1 ↔ i + 1 = n by omega]
    · simp [hl, bit_zero, show i = n - 1 ↔ i + 1 = n by omega, show ¬ n ≤ i by omega]
  · simp only [he, if_false, bit_zero, Bool.false_eq_true, false_iff, not_or, not_and]
    exact ⟨fun h => absurd h (by omega), by omega⟩

/-- A forward jump keeps the part of the old window that is still in reach. -/
theorem represents_forward (h : Represents b w) (hp : 0 < d) (hk : ¬ w.Known (w.top + d)) :
    Represents (calculateMessageCounterBitmap b d) (w.insert (w.top + d) hk) := by
  obtain ⟨n, rfl⟩ : ∃ n : Nat, d = n := ⟨d.toNat, by omega⟩
  have hn : 0 < n := by omega
  intro i hi
  rw [insert_top_above hk (by omega), known_insert hk, bit_forward hn hi]
  constructor
  · rintro (⟨hni, hb⟩ | he)
    · right
      have := (h (i - n) (by omega)).mp hb
      rwa [show w.top + n - 1 - i = w.top - 1 - ((i - n : Nat) : Int) by omega]
    · right
      rw [show w.top + n - 1 - i = w.top by omega]
      exact w.known_top
  · rintro (he | hkn)
    · omega
    · have hl := known_le_top hkn
      by_cases he : i + 1 = n
      · exact .inr he
      · left
        refine ⟨by omega, (h (i - n) (by omega)).mpr ?_⟩
        rwa [show w.top - 1 - ((i - n : Nat) : Int) = w.top + n - 1 - i by omega]

theorem window_step {K : ReceptionClass} {s : ReceptionState} {c m : Int}
    (hc : ValidCounter c) (hs : s.maximumMessageCounter = some m)
    (hr : Represents s.messageCounterBitmap w)
    (hd : K.calculateDiff (some m) c = d) (hz : c = m ↔ d = 0) :
    (K.accepts s c ↔ w.Fresh msgCounterWindowSize (w.top + d)) ∧
    ∀ hk : ¬ w.Known (w.top + d), K.accepts s c →
      (K.updateMessageCounter s c).2.maximumMessageCounter = some (if 0 < d then c else m) ∧
      Represents (K.updateMessageCounter s c).2.messageCounterBitmap (w.insert (w.top + d) hk) := by
  obtain ⟨hacc, ht⟩ := update_anchored hc hs hd hz
  have hw : msgCounterWindowSize = 32 := rfl
  have hf : K.accepts s c ↔ w.Fresh msgCounterWindowSize (w.top + d) := by
    rw [hacc, Window.Fresh, hw]
    constructor
    · rintro (hp | ⟨hl, hn, hk⟩)
      · exact .inl (by omega)
      · refine .inr ⟨by omega, by omega, ?_⟩
        rw [← isCounterKnownInBitmap_iff hr hl hn, hk]
        simp
    · rintro (hp | ⟨hl, hn, hk⟩)
      · exact .inl (by omega)
      · refine .inr ⟨by omega, by omega, ?_⟩
        rw [← isCounterKnownInBitmap_iff hr (by omega) (by omega)] at hk
        simpa using hk
  refine ⟨hf, ?_⟩
  intro hk ha
  rw [ht ha]
  refine ⟨rfl, ?_⟩
  rcases hf.mp ha with hp | ⟨hl, hn, _⟩
  · exact represents_forward hr (by omega) hk
  · exact represents_late hr (by omega) (by omega) hk

end MatterJs.Reception
