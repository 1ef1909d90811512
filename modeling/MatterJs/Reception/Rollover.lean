import MatterJs.Reception.Replay

/-!
# Replay protection across counter rollover

The stored maximum is a residue modulo 2^32. The unwrapped maximum below is
ghost state: it moves by `calculateDiff` whenever the stored maximum moves.
-/
namespace MatterJs.Reception

open ReplayWindow List Window

/-- The unwrapped position of a counter relative to an unwrapped maximum. -/
def unwrappedPosition (s : ReceptionState) (top : Option Int) (c : Int) : Int :=
  match top with
  | none => c
  | some t => t + encryptedWithRollover.calculateDiff s.maximumMessageCounter c

/-- The first counter anchors the unwrapped maximum, forward moves let it grow. -/
def unwrappedStep (s : ReceptionState) (top : Option Int) (c : Int) : Option Int :=
  if encryptedWithRollover.accepts s c then
    match top with
    | none => some c
    | some t =>
      let diff := encryptedWithRollover.calculateDiff s.maximumMessageCounter c
      some (if 0 < diff then t + diff else t)
  else top

/-- The unwrapped maximum after a sequence of calls. -/
def unwrappedMaximum (s : ReceptionState) (top : Option Int) : List Int → Option Int
  | [] => top
  | c :: cs =>
    unwrappedMaximum (encryptedWithRollover.updateMessageCounter s c).2 (unwrappedStep s top c) cs

/-- `d` is the representative of `x` modulo 2^32 in [-2^31, 2^31). -/
def IsSignedResidue (d x : Int) : Prop :=
  -2 ^ 31 ≤ d ∧ d < 2 ^ 31 ∧ (d - x) % 2 ^ 32 = 0

variable {s : ReceptionState} {w : Window} {top : Option Int} {m c : Int}

/-- All four sign cases of the raw difference, and both boundaries. -/
theorem withRollover_diff (hm : ValidCounter m) (hc : ValidCounter c) :
    IsSignedResidue (encryptedWithRollover.calculateDiff (some m) c) (c - m) := by
  obtain ⟨hm0, hm1⟩ := hm
  obtain ⟨hc0, hc1⟩ := hc
  have ha : maxCounterValue32Bit = 4294967295 := rfl
  have hi : maxCounterIncrease2Pow31 = 2147483648 := rfl
  simp only [IsSignedResidue, encryptedWithRollover, ha, hi]
  split_ifs <;> omega

theorem withRollover_diff_zero (hm : ValidCounter m) (hc : ValidCounter c) :
    c = m ↔ encryptedWithRollover.calculateDiff (some m) c = 0 := by
  obtain ⟨hd0, hd1, hd⟩ := withRollover_diff hm hc
  obtain ⟨hm0, hm1⟩ := hm
  obtain ⟨hc0, hc1⟩ := hc
  have ha : maxCounterValue32Bit = 4294967295 := rfl
  constructor
  · rintro rfl
    omega
  · intro hz
    omega

/-- The stored maximum is the residue of the window's top. -/
structure TracksMod (s : ReceptionState) (w : Window) : Prop where
  maximum : ∃ m, s.maximumMessageCounter = some m ∧ ValidCounter m ∧ (w.top - m) % 2 ^ 32 = 0
  bitmap : Represents s.messageCounterBitmap w

theorem tracksMod_step (h : TracksMod s w) (hc : ValidCounter c) :
    (unwrappedPosition s (some w.top) c - c) % 2 ^ 32 = 0 ∧ -2 ^ 31 ≤
    unwrappedPosition s (some w.top) c - w.top ∧ unwrappedPosition s (some w.top) c - w.top <
    2 ^ 31 ∧ (encryptedWithRollover.accepts s c → ¬ w.Known (unwrappedPosition s (some w.top) c) ∧
    ∃ w', TracksMod (encryptedWithRollover.updateMessageCounter s c).2 w' ∧
    unwrappedStep s (some w.top) c = some w'.top ∧
    w'.seen = unwrappedPosition s (some w.top) c :: w.seen) := by
  obtain ⟨⟨m, hs, hm, ho⟩, hb⟩ := h
  obtain ⟨hd0, hd1, hd⟩ := withRollover_diff hm hc
  have hz := withRollover_diff_zero hm hc
  simp only [unwrappedPosition, unwrappedStep, hs]
  generalize he : encryptedWithRollover.calculateDiff (some m) c = d at hd0 hd1 hd hz
  obtain ⟨hfr, hn⟩ := window_step hc hs hb he hz
  refine ⟨by omega, by omega, by omega, ?_⟩
  intro ha
  have hk := fresh_not_known (hfr.mp ha)
  obtain ⟨hx, hb'⟩ := hn hk ha
  refine ⟨hk, w.insert (w.top + d) hk, ⟨⟨_, hx, ?_, ?_⟩, hb'⟩, ?_, rfl⟩
  · split_ifs
    · exact hc
    · exact hm
  · rcases hfr.mp ha with hf | ⟨_, hf, _⟩
    · rw [insert_top_above _ hf, if_pos (by omega)]
      omega
    · rw [insert_top_below _ hf, if_neg (by omega)]
      exact ho
  · simp only [ha, if_true]
    rcases hfr.mp ha with hf | ⟨_, hf, _⟩
    · rw [insert_top_above _ hf, if_pos (by omega)]
    · rw [insert_top_below _ hf, if_neg (by omega)]

/-- A run forgets nothing that was seen before it. -/
theorem tracksMod_run (cs : List Int) (hcs : ∀ c ∈ cs, ValidCounter c) (h : TracksMod s w) :
    ∃ w', TracksMod (encryptedWithRollover.after s cs) w' ∧
      unwrappedMaximum s (some w.top) cs = some w'.top ∧ w.seen ⊆ w'.seen := by
  induction cs generalizing s w with
  | nil => exact ⟨w, h, rfl, List.Subset.refl _⟩
  | cons c cs ih =>
    have hc := hcs c (mem_cons_self ..)
    have hcs' := fun x hx => hcs x (mem_cons_of_mem _ hx)
    obtain ⟨_, _, _, he⟩ := tracksMod_step h hc
    cases ha : encryptedWithRollover.accepts s c with
    | false =>
      obtain ⟨w', hw', ht, hs⟩ := ih hcs' h
      refine ⟨w', ?_, ?_, hs⟩
      · rwa [after_cons, update_rejected ha]
      · simpa [unwrappedMaximum, unwrappedStep, ha, update_rejected ha] using ht
    | true =>
      obtain ⟨_, w₁, hw₁, ht₁, hs₁⟩ := he ha
      obtain ⟨w', hw', ht, hs⟩ := ih hcs' hw₁
      refine ⟨w', hw', ?_, ?_⟩
      · rw [unwrappedMaximum, ht₁]
        exact ht
      · intro x hx
        exact hs (hs₁ ▸ mem_cons_of_mem _ hx)

theorem tracksMod_first (hs : s.maximumMessageCounter = none) (hc : ValidCounter c) :
    TracksMod (encryptedWithRollover.updateMessageCounter s c).2 (opened c) ∧
      unwrappedStep s none c = some c := by
  have hu := update_unanchored (K := encryptedWithRollover) hc hs
  refine ⟨?_, ?_⟩
  · rw [hu]
    exact ⟨⟨c, rfl, hc, by simp [opened]⟩, represents_opened c⟩
  · simp [unwrappedStep, ReceptionClass.accepts, hu]

variable (i : Option Int)

/-- Every run starts unanchored, or is tracked from its anchor on. -/
theorem tracksMod_of_construct (hi : ∀ a ∈ i, ValidCounter a)
    (cs : List Int) (hc : ∀ c ∈ cs, ValidCounter c) : (i = none ∧ cs = []) ∨
    ∃ w, TracksMod (encryptedWithRollover.after (encryptedWithRollover.construct i) cs) w ∧
      unwrappedMaximum (encryptedWithRollover.construct i) i cs = some w.top := by
  cases i with
  | some a =>
    right
    have h : TracksMod (encryptedWithRollover.construct (some a)) (anchored a) :=
      ⟨⟨a, rfl, hi a rfl, by simp [anchored]⟩, represents_anchored a⟩
    obtain ⟨w, hw, ht, _⟩ := tracksMod_run cs hc h
    exact ⟨w, hw, ht⟩
  | none =>
    cases cs with
    | nil => exact .inl ⟨rfl, rfl⟩
    | cons c cs =>
      right
      obtain ⟨h, hs⟩ := tracksMod_first (s := encryptedWithRollover.construct none) rfl
        (hc c (mem_cons_self ..))
      obtain ⟨w, hw, ht, _⟩ :=
        tracksMod_run cs (fun x hx => hc x (mem_cons_of_mem _ hx)) h
      refine ⟨w, hw, ?_⟩
      rw [unwrappedMaximum, hs]
      exact ht

theorem unwrappedMaximum_append (cs ds : List Int) : unwrappedMaximum s top (cs ++ ds) =
      unwrappedMaximum (encryptedWithRollover.after s cs) (unwrappedMaximum s top cs) ds := by
  induction cs generalizing s top with
  | nil => rfl
  | cons c cs ih => exact ih

/-- An accepted counter is remembered at its unwrapped position. -/
theorem accepted_position (hi : ∀ a ∈ i, ValidCounter a)
    (cs : List Int) (hcs : ∀ c ∈ cs, ValidCounter c) (hc : ValidCounter c)
    (ha : encryptedWithRollover.accepts
      (encryptedWithRollover.after (encryptedWithRollover.construct i) cs) c) :
    let s := encryptedWithRollover.after (encryptedWithRollover.construct i) cs
    let top := unwrappedMaximum (encryptedWithRollover.construct i) i cs
    (unwrappedPosition s top c - c) % 2 ^ 32 = 0 ∧
    ∃ w, TracksMod (encryptedWithRollover.updateMessageCounter s c).2 w ∧
      unwrappedStep s top c = some w.top ∧ unwrappedPosition s top c ∈ w.seen := by
  intro s top
  rcases tracksMod_of_construct i hi cs hcs with ⟨rfl, rfl⟩ | ⟨w, hw, ht⟩
  · obtain ⟨h, hs⟩ := tracksMod_first (s := encryptedWithRollover.construct none) rfl hc
    refine ⟨by simp [unwrappedPosition, top, unwrappedMaximum], opened c, h, hs, ?_⟩
    simp [unwrappedPosition, top, unwrappedMaximum, opened]
  · obtain ⟨hm, _, _, hs⟩ := tracksMod_step hw hc
    obtain ⟨_, w', hw', ht', hn⟩ := hs ha
    simp only [top, ht]
    exact ⟨hm, w', hw', ht', hn ▸ mem_cons_self ..⟩

/-- Two positions of one counter that both lie within 2^31 of the top coincide. -/
theorem position_unique {p q top : Int} (hp : (p - c) % 2 ^ 32 = 0) (hq : (q - c) % 2 ^ 32 = 0)
    (hl : -2 ^ 31 ≤ q - top) (hh : q - top < 2 ^ 31) (he : p ≤ top)
    (hn : ¬ p + 2 ^ 31 < top) : q = p := by
  omega

/-- A counter accepted once is accepted again only after the unwrapped maximum has moved more than
2^31 past it. -/
theorem accepted_again (hi : ∀ a ∈ i, ValidCounter a)
    (cs ds : List Int) (hcs : ∀ c ∈ cs, ValidCounter c) (hds : ∀ c ∈ ds, ValidCounter c)
    (hc : ValidCounter c) : let s₀ := encryptedWithRollover.construct i
    let s := encryptedWithRollover.after s₀ cs
    let t := encryptedWithRollover.after s₀ (cs ++ c :: ds)
    encryptedWithRollover.accepts s c → encryptedWithRollover.accepts t c →
      ∃ top, unwrappedMaximum s₀ i (cs ++ c :: ds) = some top ∧
        unwrappedPosition s (unwrappedMaximum s₀ i cs) c + 2 ^ 31 < top := by
  intro s₀ s t ha hb
  obtain ⟨hd, w, hw, ho, hm⟩ := accepted_position i hi cs hcs hc ha
  obtain ⟨w', hw', ht', hs⟩ := tracksMod_run ds hds hw
  have ht : t =
      encryptedWithRollover.after (encryptedWithRollover.updateMessageCounter s c).2 ds := by
    simp [t, s, after_append]
  have hx : unwrappedMaximum s₀ i (cs ++ c :: ds) = some w'.top := by
    rw [unwrappedMaximum_append, unwrappedMaximum, ho]
    exact ht'
  refine ⟨w'.top, hx, ?_⟩
  by_contra hn
  rw [ht] at hb
  obtain ⟨hm', hl, hh, he⟩ := tracksMod_step hw' hc
  obtain ⟨hk, _⟩ := he hb
  apply hk
  right
  have hle := (w'.seen_bounds _ (hs hm)).2
  rw [position_unique hd hm' hl hh hle hn]
  exact hs hm

/-- `calculateDiff` is the signed residue of `c - max`, and a counter accepted once is
accepted again only after the unwrapped maximum has moved more than 2^31 past it. -/
theorem withRollover_no_replay (initial : Option Int) (hi : ∀ a ∈ initial, ValidCounter a)
    (cs ds : List Int) (hcs : ∀ c ∈ cs, ValidCounter c) (hds : ∀ c ∈ ds, ValidCounter c)
    (c : Int) (hc : ValidCounter c) :
    let s₀ := encryptedWithRollover.construct initial
    let s := encryptedWithRollover.after s₀ cs
    let t := encryptedWithRollover.after s₀ (cs ++ c :: ds)
    (∀ m, s.maximumMessageCounter = some m →
      IsSignedResidue (encryptedWithRollover.calculateDiff (some m) c) (c - m)) ∧
    (encryptedWithRollover.accepts s c → encryptedWithRollover.accepts t c →
      ∃ top, unwrappedMaximum s₀ initial (cs ++ c :: ds) = some top ∧
        unwrappedPosition s (unwrappedMaximum s₀ initial cs) c + 2 ^ 31 < top) := by
  constructor
  · intro m hm
    rcases tracksMod_of_construct initial hi cs hcs with ⟨rfl, rfl⟩ | ⟨w, ⟨⟨m', hs, hv, _⟩, _⟩, _⟩
    · cases hm
    · obtain rfl : m' = m := Option.mem_unique hs hm
      exact withRollover_diff hv hc
  · exact accepted_again initial hi cs ds hcs hds hc

/-- Across the wrap: 5 is accepted at position 2^32 + 5, and its replay is refused. -/
theorem withRollover_no_replay_across_wrap :
    encryptedWithRollover.accepts (encryptedWithRollover.after
      (encryptedWithRollover.construct none) [0xfffffff0, 5, 9]) 5 = false := by
  have h := (withRollover_no_replay none (by simp) [0xfffffff0] [9] (by decide) (by decide) 5
    (by decide)).2 (by decide)
  by_contra hb
  obtain ⟨top, ht, hf⟩ := h (by simpa using hb)
  have hn : top = 4294967305 := by
    have : some top = some 4294967305 := ht.symm.trans (by decide)
    exact Option.some.inj this
  have hp : unwrappedPosition (encryptedWithRollover.after
      (encryptedWithRollover.construct none) [0xfffffff0])
      (unwrappedMaximum (encryptedWithRollover.construct none) none [0xfffffff0]) 5
        = 4294967301 := by decide
  omega

end MatterJs.Reception
