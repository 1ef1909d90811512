import MatterJs.Foundation.ReplayWindow
import Mathlib.Data.List.Induction
import Mathlib.Data.Nat.Bitwise

/-!
# The anti-replay window of DTLS records

A right edge and a bitmap of the 64 sequence numbers up to it stand for the set of
all numbers accepted so far.
-/
namespace MatterJs.Dtls

open ReplayWindow Window

def windowSize : Int := 64

def windowMask : Nat := 1 <<< 64 - 1

def maxSeq : Int := 2 ^ 48 - 1

structure AntiReplayWindow where
  /-- The highest number accepted, or -1. -/
  rightmost : Int := -1
  /-- Bit `i` stands for `rightmost - i`. -/
  window : Nat := 0

/-- The answer, or the message of the `InternalError`, and the window after the call. -/
def AntiReplayWindow.check (w : AntiReplayWindow) (n : Int) :
    Except String Bool × AntiReplayWindow :=
  if n < 0 ∨ n > maxSeq then
    (.error s!"AntiReplayWindow: seqNum {n} out of 48-bit range", w)
  else if n > w.rightmost then
    if w.rightmost ≥ 0 then
      let shift := n - w.rightmost
      if shift ≥ windowSize then (.ok true, ⟨n, 1⟩)
      else (.ok true, ⟨n, (w.window <<< shift.toNat ||| 1) &&& windowMask⟩)
    else (.ok true, ⟨n, 1⟩)
  else
    let offset := w.rightmost - n
    if offset ≥ windowSize then (.ok false, w)
    else
      let bit := 1 <<< offset.toNat
      if w.window &&& bit ≠ 0 then (.ok false, w)
      else (.ok true, { w with window := w.window ||| bit })

/-- A window after some calls, with the numbers it accepted, newest first. -/
def afterChecks (ns : List Int) : AntiReplayWindow × List Int :=
  ns.foldl
    (fun s n =>
      let r := s.1.check n
      (r.2, if r.1 matches .ok true then n :: s.2 else s.2))
    ({}, [])

/-- The window shows the last 64 numbers of the receiver that remembers all of them. -/
structure Shows (s : AntiReplayWindow) (w : Window) : Prop where
  anchor : w.anchor = -1
  nonneg : ∀ u ∈ w.seen, 0 ≤ u
  rightmost : s.rightmost = w.top
  bits : ∀ i < 64, s.window.testBit i ↔ w.top - i ∈ w.seen

variable {s : AntiReplayWindow} {w : Window} {n : Int}

theorem shows_initial : Shows {} (anchored (-1)) :=
  ⟨rfl, by simp [anchored], rfl, by simp [anchored]⟩

theorem known_iff (h : Shows s w) (hn : 0 ≤ n) : w.Known n ↔ n ∈ w.seen := by
  have ha := h.anchor
  exact or_iff_right (by omega)

/-- A number of the window is fresh when it is new and less than 64 below the largest. -/
theorem fresh_iff (h : Shows s w) (hn : 0 ≤ n) :
    w.Fresh 63 n ↔ n ∉ w.seen ∧ ∀ m ∈ w.seen, m - 64 < n := by
  rw [Fresh, known_iff h hn]
  constructor
  · intro hf
    refine ⟨fun hm => ?_, fun m hm => ?_⟩
    · have := (w.seen_bounds n hm).2
      rcases hf with hf | hf
      · omega
      · exact hf.2.2 hm
    · have := (w.seen_bounds m hm).2
      omega
  · rintro ⟨hk, hm⟩
    by_contra hf
    have ht : w.top ∈ w.seen := by
      have ha := h.anchor
      exact w.top_seen.resolve_left (by omega)
    have hl := hm _ ht
    have he : n ≠ w.top := fun he => hk (he ▸ ht)
    exact hf (.inr ⟨by omega, by omega, hk⟩)

theorem testBit_slide (b : Nat) {d i : Nat} (hi : i < 64) :
    ((b <<< d ||| 1) &&& windowMask).testBit i ↔ i = 0 ∨ d ≤ i ∧ b.testBit (i - d) := by
  have hm : windowMask = 2 ^ 64 - 1 := rfl
  simp only [hm, Nat.testBit_and, Nat.testBit_or, Nat.testBit_shiftLeft,
    Nat.testBit_two_pow_sub_one, hi, Nat.testBit_one_eq_true_iff_self_eq_zero, decide_true,
    Bool.and_true, Bool.or_eq_true, Bool.and_eq_true, decide_eq_true_eq, ge_iff_le]
  exact or_comm

theorem and_bit_ne_zero (b i : Nat) : b &&& 1 <<< i ≠ 0 ↔ b.testBit i := by
  rw [Nat.one_shiftLeft, Nat.and_two_pow]
  cases b.testBit i <;> simp

section
variable (h : Shows s w) (hk : ¬ w.Known n)
include h

/-- A number above the edge, when the new bitmap remembers what lies below it. -/
theorem shows_above (ht : w.top < n) {b : Nat}
    (hb : ∀ i < 64, b.testBit i ↔ i = 0 ∨ n - i ∈ w.seen) : Shows ⟨n, b⟩ (w.insert n hk) := by
  have hn : 0 ≤ n := by
    have := h.anchor
    have := w.anchor_le_top
    omega
  refine ⟨h.anchor, ?_, (insert_top_above hk ht).symm, fun i hi => ?_⟩
  · simpa [hn] using h.nonneg
  · rw [insert_top_above hk ht, hb i hi, insert_seen, List.mem_cons]
    exact or_congr_left (by omega)

theorem shows_slide (ht : w.top < n) :
    Shows ⟨n, (s.window <<< (n - w.top).toNat ||| 1) &&& windowMask⟩ (w.insert n hk) := by
  refine shows_above h hk ht fun i hi => ?_
  rw [testBit_slide _ hi]
  refine or_congr_right ⟨fun ⟨hl, hb⟩ => ?_, fun hm => ?_⟩
  · have := (h.bits _ (by omega)).mp hb
    rwa [show w.top - ((i - (n - w.top).toNat : Nat) : Int) = n - i by omega] at this
  · have hl := (w.seen_bounds _ hm).2
    refine ⟨by omega, (h.bits _ (by omega)).mpr ?_⟩
    rwa [show w.top - ((i - (n - w.top).toNat : Nat) : Int) = n - i by omega]

/-- A jump over the whole window, or the first number, forgets everything else. -/
theorem shows_reset (ht : w.top < n) (hj : w.top + 64 ≤ n ∨ w.top < 0) :
    Shows ⟨n, 1⟩ (w.insert n hk) := by
  refine shows_above h hk ht fun i hi => ?_
  rw [Nat.testBit_one_eq_true_iff_self_eq_zero, or_iff_left]
  intro hm
  have hl := (w.seen_bounds _ hm).2
  have hn := h.nonneg _ hm
  omega

theorem shows_late (hn : 0 ≤ n) (ht : n < w.top) :
    Shows { s with window := s.window ||| 1 <<< (w.top - n).toNat } (w.insert n hk) := by
  refine ⟨h.anchor, ?_, ?_, fun i hi => ?_⟩
  · simpa [hn] using h.nonneg
  · rw [insert_top_below hk ht, ← h.rightmost]
  · rw [insert_top_below hk ht, insert_seen, List.mem_cons, Nat.testBit_or, Nat.one_shiftLeft,
      Nat.testBit_two_pow, Bool.or_eq_true, h.bits i hi, decide_eq_true_eq, or_comm]
    exact or_congr_left (by omega)

end

theorem check_fresh (h : Shows s w) (hr : ¬ (n < 0 ∨ n > maxSeq)) (hf : w.Fresh 63 n) :
    ∃ t, s.check n = (.ok true, t) ∧ Shows t (w.insert n (fresh_not_known hf)) := by
  have hs : windowSize = 64 := rfl
  have hk := fresh_not_known hf
  simp only [AntiReplayWindow.check, if_neg hr, h.rightmost]
  by_cases ht : w.top < n
  · rw [if_pos ht]
    split
    · split
      · exact ⟨_, rfl, shows_reset h hk ht (by omega)⟩
      · exact ⟨_, rfl, shows_slide h hk ht⟩
    · exact ⟨_, rfl, shows_reset h hk ht (by omega)⟩
  · obtain ⟨hl, hu, -⟩ := hf.resolve_left ht
    have hb : ¬ s.window &&& 1 <<< (w.top - n).toNat ≠ 0 := by
      rw [and_bit_ne_zero, h.bits _ (by omega),
        show w.top - ((w.top - n).toNat : Int) = n by omega, ← known_iff h (by omega)]
      exact hk
    rw [if_neg ht, if_neg (by omega), if_neg hb, ← h.rightmost]
    exact ⟨_, rfl, h.rightmost ▸ shows_late h hk (by omega) hu⟩

theorem check_stale (h : Shows s w) (hr : ¬ (n < 0 ∨ n > maxSeq)) (hf : ¬ w.Fresh 63 n) :
    s.check n = (.ok false, s) := by
  have hs : windowSize = 64 := rfl
  have ht : ¬ w.top < n := fun ht => hf (.inl ht)
  simp only [AntiReplayWindow.check, if_neg hr, h.rightmost, if_neg ht]
  split
  · rfl
  · refine if_pos ?_
    rw [and_bit_ne_zero, h.bits _ (by omega),
      show w.top - ((w.top - n).toNat : Int) = n by omega, ← known_iff h (by omega)]
    by_contra hk
    have he : n ≠ w.top := fun he => hk (he ▸ w.known_top)
    exact hf (.inr ⟨by omega, by omega, hk⟩)

/-- After any calls the window shows a receiver that remembers every number accepted. -/
theorem shows_afterChecks (ns : List Int) :
    ∃ w, Shows (afterChecks ns).1 w ∧ w.seen = (afterChecks ns).2 := by
  induction ns using List.reverseRecOn with
  | nil => exact ⟨_, shows_initial, rfl⟩
  | append_singleton ns n ih =>
    obtain ⟨w, h, he⟩ := ih
    simp only [afterChecks, List.foldl_append, List.foldl_cons] at h he ⊢
    rw [← he]
    by_cases hr : n < 0 ∨ n > maxSeq
    · exact ⟨w, by simpa only [AntiReplayWindow.check, if_pos hr] using ⟨h, rfl⟩⟩
    · by_cases hf : w.Fresh 63 n
      · obtain ⟨t, hc, ht⟩ := check_fresh h hr hf
        rw [hc]
        exact ⟨_, ht, rfl⟩
      · rw [check_stale h hr hf]
        exact ⟨w, h, rfl⟩

/-- A number of 48 bits is accepted exactly when it is new and above the largest accepted number
minus 64, any other number throws, and only an accepted number changes the window. -/
theorem check_iff_new_and_recent (ns : List Int) (n : Int) :
    ((afterChecks ns).1.check n).1 = (if 0 ≤ n ∧ n ≤ maxSeq then
        .ok (decide (n ∉ (afterChecks ns).2 ∧ ∀ m ∈ (afterChecks ns).2, m - 64 < n))
        else .error s!"AntiReplayWindow: seqNum {n} out of 48-bit range") ∧
    (((afterChecks ns).1.check n).1 ≠ .ok true →
      ((afterChecks ns).1.check n).2 = (afterChecks ns).1) := by
  obtain ⟨w, h, he⟩ := shows_afterChecks ns
  by_cases hr : n < 0 ∨ n > maxSeq
  · rw [if_neg (by omega)]
    simp [AntiReplayWindow.check, if_pos hr]
  · have hd := fresh_iff h (n := n) (by omega)
    rw [if_pos (by omega)]
    by_cases hf : w.Fresh 63 n
    · obtain ⟨t, hc, -⟩ := check_fresh h hr hf
      rw [hd, he] at hf
      simp only [hc, decide_eq_true hf, ne_eq, not_true, false_implies, and_self]
    · rw [check_stale h hr hf]
      rw [hd, he] at hf
      simp only [decide_eq_false hf, implies_true, and_self]

/-- A number of 49 bits is new and above every accepted one, and is not accepted. -/
theorem wide_number_throws : (AntiReplayWindow.check {} (2 ^ 48)).1 ≠ .ok true := by
  decide

/-- After any calls the edge is the largest number accepted, or -1, and the bits tell which of the
64 numbers from it downwards were accepted. -/
theorem window_shows_accepted (ns : List Int) :
    IsGreatest (insert (-1) {m | m ∈ (afterChecks ns).2}) (afterChecks ns).1.rightmost ∧
      ∀ i : Fin 64, (afterChecks ns).1.window.testBit i ↔
        (afterChecks ns).1.rightmost - (i : Nat) ∈ (afterChecks ns).2 := by
  obtain ⟨w, h, he⟩ := shows_afterChecks ns
  rw [h.rightmost, ← he]
  refine ⟨⟨h.anchor ▸ w.top_seen, ?_⟩, fun i => h.bits i i.isLt⟩
  rintro m (rfl | hm)
  · exact h.anchor ▸ w.anchor_le_top
  · exact (w.seen_bounds m hm).2

end MatterJs.Dtls
