import MatterJs.Events.OccurrenceManager

/-!
# The index of the occurrence manager

The search for the start of an iteration finds the first entry from `eventMin` on in an index
in number order, and a cull keeps a part of the index in its order and deletes the rest.
-/
namespace MatterJs.Events

open List OccurrenceSummary Nat

variable {os : List OccurrenceSummary} {e : Nat}

/-! ### The search -/

/-- An index in strictly increasing number order. -/
def Ordered (occurrences : List OccurrenceSummary) : Prop :=
  (occurrences.map number).Pairwise (· < ·)

theorem Ordered.numberAt_lt (h : Ordered os) {i j : Nat} (hij : i < j)
    (hj : j < os.length) : numberAt os i < numberAt os j := by
  have hi : i < os.length := lt_trans hij hj
  have hl := pairwise_iff_getElem.mp h i j (by simpa using hi) (by simpa using hj) hij
  simpa [numberAt, hi, hj] using hl

theorem Ordered.numberAt_le (h : Ordered os) {i j : Nat} (hi : i ≤ j)
    (hj : j < os.length) : numberAt os i ≤ numberAt os j := by
  rcases lt_or_eq_of_le hi with hl | rfl
  · exact le_of_lt (h.numberAt_lt hl hj)
  · exact Nat.le_refl _

/-- The first loop ends with an entry from `eventMin` on at the upper bound, and with an entry
below it at the lower bound. -/
theorem stepBack_spec (hf : numberAt os 0 < e) {f l hg step : Nat}
    (hfl : l ≤ f) (hs : 0 < step) (he : l ≤ hg) (hl : hg < os.length)
    (hh : e ≤ numberAt os hg) : let bounds := stepBack os e f l hg step
    bounds.1 ≤ bounds.2 ∧ bounds.2 < os.length ∧
      numberAt os bounds.1 < e ∧ e ≤ numberAt os bounds.2 := by
  induction f generalizing l hg step with
  | zero =>
    obtain rfl : l = 0 := le_zero.mp hfl
    exact ⟨he, hl, hf, hh⟩
  | succ f ih =>
    by_cases hp : 0 < l ∧ e ≤ numberAt os l
    · simp only [stepBack, if_pos hp]
      exact ih (by omega) (by omega) (by omega) (by omega) hp.2
    · simp only [stepBack, if_neg hp]
      refine ⟨he, hl, ?_, hh⟩
      rcases Nat.eq_zero_or_pos l with rfl | ho
      · exact hf
      · exact Nat.lt_of_not_le (fun hge => hp ⟨ho, hge⟩)

/-- The second loop keeps the entries before `low` below `eventMin` and those after `high` not
below it, until the bounds have met. -/
theorem bisect_spec (h : Ordered os) (f : Nat) (low hg : Int) (hl : 0 ≤ low)
    (hh : hg < os.length) (hle : low ≤ hg + 1) (hf : hg + 1 - low ≤ f)
    (hb : ∀ i : Nat, i < low → numberAt os i < e)
    (ha : ∀ i : Nat, hg < i → i < os.length → e ≤ numberAt os i) : let start := bisect os e f low hg
    0 ≤ start ∧ start ≤ os.length ∧ (∀ i : Nat, i < start → numberAt os i < e) ∧
      ∀ i : Nat, start ≤ i → i < os.length → e ≤ numberAt os i := by
  induction f generalizing low hg with
  | zero =>
    exact ⟨hl, by simp only [bisect]; omega, hb, fun i hi => ha i (by
      simp only [bisect] at hi
      omega)⟩
  | succ f ih =>
    by_cases hp : low ≤ hg
    · have hd : low ≤ (low + hg) / 2 ∧ (low + hg) / 2 ≤ hg := by omega
      generalize hm : (low + hg) / 2 = mid at hd
      simp only [bisect, if_pos hp, hm]
      by_cases ht : numberAt os mid.toNat < e
      · simp only [if_pos ht]
        refine ih (mid + 1) hg (by omega) hh (by omega) (by omega) ?_ ha
        intro i hi
        exact lt_of_le_of_lt (h.numberAt_le (by omega) (by omega)) ht
      · simp only [if_neg ht]
        refine ih low (mid - 1) hl (by omega) (by omega) (by omega) hb ?_
        intro i hi he
        exact Nat.le_trans (Nat.le_of_not_lt ht) (h.numberAt_le (by omega) he)
    · simp only [bisect, if_neg hp]
      exact ⟨hl, by omega, hb, fun i hi => ha i (by omega)⟩

/-- The search splits the index at `eventMin`; it finds no entry only if all are below it. -/
theorem findMinEventNumberIndex_spec (h : Ordered os) (e : Nat) :
    match findMinEventNumberIndex os e with
    | none => ∀ i < os.length, numberAt os i < e
    | some start =>
      start ≤ os.length ∧ (∀ i < start, numberAt os i < e) ∧
        ∀ i, start ≤ i → i < os.length → e ≤ numberAt os i := by
  unfold findMinEventNumberIndex
  by_cases hn : os.isEmpty ∨ numberAt os (os.length - 1) < e
  · simp only [if_pos hn]
    intro i hi
    rcases hn with he | hls
    · simp [isEmpty_iff.mp he] at hi
    · exact lt_of_le_of_lt (h.numberAt_le (by omega) (by omega)) hls
  · simp only [if_neg hn]
    obtain ⟨he, hls⟩ := not_or.mp hn
    have hl : 0 < os.length := by
      cases os with
      | nil => simp at he
      | cons entry rest => simp
    by_cases hf : e ≤ numberAt os 0
    · simp only [if_pos hf]
      refine ⟨zero_le _, fun i hi => absurd hi (not_lt_zero i), ?_⟩
      intro i _ hi
      exact Nat.le_trans hf (h.numberAt_le (zero_le i) hi)
    · simp only [if_neg hf]
      obtain ⟨hle, hh, hb, ha⟩ :=
        stepBack_spec (Nat.lt_of_not_le hf) (Nat.le_refl (os.length - 1))
          Nat.one_pos (Nat.le_refl _) (by omega) (Nat.le_of_not_lt hls)
      generalize stepBack os e _ _ _ 1 = bounds at *
      obtain ⟨hp, hle, hs, hd⟩ :=
        bisect_spec h os.length bounds.1 bounds.2
          (by omega) (by omega) (by omega) (by omega)
          (fun i hi => lt_of_le_of_lt (h.numberAt_le (by omega) (by omega)) hb)
          (fun i hi hl => Nat.le_trans ha (h.numberAt_le (by omega) hl))
      exact ⟨by omega, fun i hi => hs i (by omega), fun i hi => hd i (by omega)⟩

example : findMinEventNumberIndex
    [⟨3, .info, 0, 0, 0⟩, ⟨5, .info, 0, 0, 0⟩, ⟨6, .info, 0, 0, 0⟩, ⟨9, .info, 0, 0, 0⟩] 4 =
      some 1 := by
  decide

/-! ### Culling -/

def leftNumbers (entries : List (Option OccurrenceSummary)) : List Nat :=
  (entries.filterMap id).map number

/-- A pass takes entries out, keeps the order of the rest and reports what it took. -/
structure Dropping.From (state : Dropping) (entries : List (Option OccurrenceSummary)) : Prop where
  sublist : (state.entries.filterMap id).Sublist (entries.filterMap id)
  perm : (state.drops ++ leftNumbers state.entries).Perm (leftNumbers entries)

theorem dropPriority_from (p : Priority) (c t : Nat) (en : List (Option OccurrenceSummary)) :
    (dropPriority p c t en).From en := by
  fun_induction dropPriority p c t en with
  | case1 | case2 | case3 => exact ⟨.refl _, .refl _⟩
  | case4 c t en rest ih => exact ⟨ih.sublist, ih.perm⟩
  | case5 c t entry en hp rest ih =>
    exact ⟨ih.sublist.cons entry, ih.perm.cons entry.number⟩
  | case6 c t entry en hp rest ih =>
    refine ⟨ih.sublist.cons_cons entry, ?_⟩
    exact perm_middle.trans (ih.perm.cons entry.number)

theorem Dropping.From.trans {s s' : Dropping} {e : List (Option OccurrenceSummary)}
    (h : s.From e) (h' : s'.From s.entries) :
    Dropping.From { s' with drops := s.drops ++ s'.drops } e where
  sublist := h'.sublist.trans h.sublist
  perm := by
    rw [append_assoc]
    exact (h'.perm.append_left s.drops).trans h.perm

theorem dropPriorities_from (p : List (Priority × Option Nat)) {s : Dropping}
    {en : List (Option OccurrenceSummary)} (h : s.From en) : (dropPriorities p s).From en := by
  induction p generalizing s with
  | nil => exact h
  | cons head p ih =>
    obtain ⟨r, c⟩ := head
    cases c with
    | none => exact ih h
    | some c =>
      have hp := h.trans (dropPriority_from r c s.toDelete s.entries)
      simp only [dropPriorities]
      split_ifs
      · exact hp
      · exact ih hp

/-- A cull keeps a part of the index in its order and deletes the numbers of the rest. -/
theorem dropOldOccurrences_spec (c : BufferConfig) (os : List OccurrenceSummary) :
    (dropOldOccurrences c os).1.Sublist os ∧ ((dropOldOccurrences c os).2 ++
        (dropOldOccurrences c os).1.map number).Perm (os.map number) := by
  unfold dropOldOccurrences
  by_cases hn : os.length - c.minEventAllowance = 0
  · simp only [if_pos hn]
    exact ⟨.refl _, .refl _⟩
  · simp only [if_neg hn]
    generalize countBack os os.length { count := c.info }
      { count := c.debug } = data
    have ha : (os.map some).filterMap id = os := by simp
    have ht : Dropping.From
        ⟨os.map some, os.length - c.minEventAllowance, []⟩
        (os.map some) := ⟨.refl _, .refl _⟩
    obtain ⟨hs, hp⟩ :=
      dropPriorities_from
        [(.debug, data.2.minPosition), (.info, data.1.minPosition), (.critical, some os.length)] ht
    rw [ha] at hs
    rw [leftNumbers, leftNumbers, ha] at hp
    exact ⟨hs, hp⟩

/-! ### Loading -/

/-- The loaded index is in number order if no number comes twice. -/
theorem ordered_insertionSort (hd : (os.map number).Nodup) :
    Ordered (os.insertionSort (fun a b => a.number ≤ b.number)) := by
  have hs := os.pairwise_insertionSort (fun a b => a.number ≤ b.number)
  have hp := (os.perm_insertionSort (fun a b => a.number ≤ b.number)).map
    number
  have hl : ((os.insertionSort (fun a b => a.number ≤ b.number)).map
      number).Pairwise (· ≤ ·) := pairwise_map.mpr hs
  exact hl.imp₂ (fun _ _ hl hn => lt_of_le_of_ne hl hn) (hp.nodup_iff.mpr hd)

end MatterJs.Events
