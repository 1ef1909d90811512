import MatterJs.Reception.Bitmap
import Mathlib.Data.List.Induction

/-!
# Replay protection over whole runs

What a sequence of `updateMessageCounter` calls accepts, for the encrypted
reception states with and without rollover.
-/
namespace MatterJs.Reception

open ReplayWindow List ReceptionClass Window

variable {K : ReceptionClass} {s : ReceptionState}

theorem after_append (c d : List Int) : K.after s (c ++ d) = K.after (K.after s c) d :=
  foldl_append

@[simp] theorem after_nil : K.after s [] = s := rfl

@[simp] theorem after_cons (c : Int) (cs : List Int) :
    K.after s (c :: cs) = K.after (K.updateMessageCounter s c).2 cs := rfl

theorem accepted_append (s : ReceptionState) (cs ds : List Int) :
    K.accepted s (cs ++ ds) = K.accepted s cs ++ K.accepted (K.after s cs) ds := by
  induction cs generalizing s with
  | nil => rfl
  | cons c cs ih =>
    simp only [cons_append, accepted, ih]
    split <;> rfl

variable (i : Option Int)

/-- The constructor argument, or else the first counter of the run. -/
def anchorOf (counters : List Int) : Option Int :=
  i.or counters.head?

/-- The largest of the anchor and the accepted counters. -/
def largest (anchor : Int) (accepted : List Int) : Int := accepted.foldl max anchor

/-- The acceptance rule over the history of a run: the anchor, the counters
accepted so far, and the counter of the next call. -/
def Acceptable : Option Int → List Int → Int → Prop
  | none, _, _ => True
  | some a, acc, c => largest a acc < c ∨
      (largest a acc - 32 ≤ c ∧ c < largest a acc ∧ a < c ∧ c ∉ acc)

instance : (a : Option Int) → (acc : List Int) → (c : Int) → Decidable (Acceptable a acc c)
  | none, _, _ => inferInstanceAs (Decidable True)
  | some _, _, _ => inferInstanceAs (Decidable (_ ∨ _))

theorem largest_eq {a t : Int} {xs : List Int} (ha : a ≤ t) (hx : ∀ x ∈ xs, x ≤ t)
    (ht : t = a ∨ t ∈ xs) : largest a xs = t := by
  induction xs generalizing a with
  | nil => simpa [largest, eq_comm] using ht
  | cons x xs ih =>
    refine ih (a := max a x) (max_le ha (hx x (mem_cons_self ..)))
      (fun y hy => hx y (mem_cons_of_mem _ hy)) ?_
    have hxt := hx x (mem_cons_self ..)
    rcases ht with ht | ht
    · exact .inl (by omega)
    · rcases mem_cons.mp ht with ht | ht
      · exact .inl (by omega)
      · exact .inr ht

/-- Without rollover the window's top is the stored maximum itself. -/
structure Tracks (s : ReceptionState) (w : Window) : Prop where
  maximum : s.maximumMessageCounter = some w.top
  bitmap : Represents s.messageCounterBitmap w

theorem withoutRollover_diff (m c : Int) :
    encryptedWithoutRollover.calculateDiff (some m) c = c - m := rfl

theorem tracks_step {w : Window} {c : Int} (h : Tracks s w) (hc : ValidCounter c) :
    (encryptedWithoutRollover.accepts s c ↔ w.Fresh msgCounterWindowSize c) ∧
    (encryptedWithoutRollover.accepts s c → ∃ w',
      Tracks (encryptedWithoutRollover.updateMessageCounter s c).2 w' ∧
      w'.anchor = w.anchor ∧ w'.seen = c :: w.seen) := by
  obtain ⟨hfr, hn⟩ := window_step hc h.maximum h.bitmap
    (withoutRollover_diff w.top c) (by omega)
  rw [show w.top + (c - w.top) = c by omega] at hfr hn
  refine ⟨hfr, ?_⟩
  intro ha
  have hf := hfr.mp ha
  obtain ⟨hm, hb⟩ := hn (fresh_not_known hf) ha
  refine ⟨w.insert c (fresh_not_known hf), ⟨?_, hb⟩, rfl, rfl⟩
  rw [hm]
  rcases hf with hf | ⟨_, hf, _⟩
  · rw [insert_top_above _ hf, if_pos (by omega)]
  · rw [insert_top_below _ hf, if_neg (by omega)]

/-- Every run is tracked by a window that has seen exactly the accepted counters. -/
theorem tracks_run (cs : List Int) (hcs : ∀ c ∈ cs, ValidCounter c) :
    match anchorOf i cs with
    | none => (encryptedWithoutRollover.after (encryptedWithoutRollover.construct i)
        cs).maximumMessageCounter = none
    | some a => ∃ w, Tracks (encryptedWithoutRollover.after
          (encryptedWithoutRollover.construct i) cs) w ∧ w.anchor = a ∧
        w.seen = (encryptedWithoutRollover.accepted
          (encryptedWithoutRollover.construct i) cs).reverse := by
  induction cs using List.reverseRecOn with
  | nil =>
    cases i with
    | none => rfl
    | some a => exact ⟨anchored a, ⟨rfl, represents_anchored a⟩, rfl, rfl⟩
  | append_singleton cs c ih =>
    have hc : ValidCounter c := hcs c (by simp)
    have ih := ih (fun x hx => hcs x (by simp [hx]))
    rw [after_append, accepted_append]
    generalize hs : encryptedWithoutRollover.after
      (encryptedWithoutRollover.construct i) cs = s at ih ⊢
    cases ha : anchorOf i cs with
    | none =>
      -- an unanchored state means that nothing has been called yet
      have hn : i = none ∧ cs = [] := by simpa [anchorOf] using ha
      obtain ⟨rfl, rfl⟩ := hn
      have hu := update_unanchored (K := encryptedWithoutRollover) hc ih
      refine ⟨opened c, ⟨?_, ?_⟩, rfl, ?_⟩
      · rw [after_cons, after_nil, hu]
        rfl
      · rw [after_cons, after_nil, hu]
        exact represents_opened c
      · simp [accepted, accepts, hu, opened]
    | some a =>
      rw [ha] at ih
      have hb : anchorOf i (cs ++ [c]) = some a := by
        cases i <;> cases cs <;> simp_all [anchorOf]
      rw [hb]
      obtain ⟨w, hw, hwa, hsn⟩ := ih
      obtain ⟨_, hnx⟩ := tracks_step hw hc
      cases hacc : encryptedWithoutRollover.accepts s c with
      | false =>
        refine ⟨w, ?_, hwa, ?_⟩
        · rw [after_cons, after_nil, update_rejected hacc]
          exact hw
        · simpa [accepted, hacc] using hsn
      | true =>
        obtain ⟨w', hw', hwa', hs'⟩ := hnx hacc
        refine ⟨w', hw', hwa'.trans hwa, ?_⟩
        simp [accepted, hacc, hs', hsn]

/-- A call is accepted exactly when nothing is anchored yet, the counter exceeds
the largest one, or it lies in the window above the anchor and was not accepted
before. No counter is accepted twice, and a rejected call changes nothing. -/
theorem withoutRollover_accepts_iff (i : Option Int) (cs : List Int)
    (hcs : ∀ c ∈ cs, ValidCounter c) :
    let s := encryptedWithoutRollover.after (encryptedWithoutRollover.construct i) cs
    let acc := encryptedWithoutRollover.accepted (encryptedWithoutRollover.construct i) cs
    (∀ c, ValidCounter c →
      (encryptedWithoutRollover.accepts s c ↔ Acceptable (anchorOf i cs) acc c) ∧
      (encryptedWithoutRollover.accepts s c = false →
        (encryptedWithoutRollover.updateMessageCounter s c).2 = s)) ∧ acc.Nodup := by
  intro s acc
  have h := tracks_run i cs hcs
  cases ha : anchorOf i cs with
  | none =>
    have hn : i = none ∧ cs = [] := by simpa [anchorOf] using ha
    obtain ⟨rfl, rfl⟩ := hn
    refine ⟨?_, nodup_nil⟩
    intro c hc
    refine ⟨?_, update_rejected⟩
    have hu := update_unanchored (K := encryptedWithoutRollover) hc h
    simp only [s, accepts, hu, Acceptable]
  | some a =>
    rw [ha] at h
    obtain ⟨w, hw, hwa, hs⟩ := h
    have hm : ∀ x, x ∈ acc ↔ x ∈ w.seen := by simp [acc, hs]
    have ho : largest a acc = w.top := by
      apply largest_eq (hwa ▸ w.anchor_le_top)
      · intro x hx
        exact (w.seen_bounds x ((hm x).mp hx)).2
      · rcases w.top_seen with ht | ht
        · exact .inl (ht.trans hwa)
        · exact .inr ((hm _).mpr ht)
    refine ⟨?_, ?_⟩
    · intro c hc
      refine ⟨?_, update_rejected⟩
      rw [(tracks_step hw hc).1]
      simp [Acceptable, ho, Window.Fresh, Window.Known, hwa, hm, msgCounterWindowSize]
    · have := w.nodup
      rwa [hs, nodup_reverse] at this

/-- A session state anchored at 0: a late counter is accepted once, and a replay is not. -/
theorem withoutRollover_accepts_late :
    let s := encryptedWithoutRollover.after (encryptedWithoutRollover.construct (some 0)) [40, 9]
    encryptedWithoutRollover.accepts s 8 ∧ encryptedWithoutRollover.accepts s 9 = false := by
  have h := (withoutRollover_accepts_iff (some 0) [40, 9] (by decide)).1
  refine ⟨((h 8 (by decide)).1).mpr (by decide), ?_⟩
  decide

end MatterJs.Reception
