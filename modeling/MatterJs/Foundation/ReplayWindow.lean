import Mathlib.Algebra.Order.Ring.Int
import Mathlib.Data.List.Nodup
import Mathlib.Tactic.Common

/-!
# Replay windows

The abstract receiver of a sequence of unwrapped counters. It remembers every
counter it has seen since its anchor, and it never needs more than the part of
that memory that lies at most `size` below its top.
-/
namespace ReplayWindow

open List

/-- Everything accepted so far, newest first, above a fixed anchor. -/
structure Window where
  anchor : Int
  top : Int
  seen : List Int
  anchor_le_top : anchor ≤ top
  seen_bounds : ∀ u ∈ seen, anchor ≤ u ∧ u ≤ top
  top_seen : top = anchor ∨ top ∈ seen
  nodup : seen.Nodup

namespace Window
variable {w : Window} {size : Int} {u v : Int}

/-- A window that is anchored without having accepted the anchor itself. -/
def anchored (a : Int) : Window where
  anchor := a
  top := a
  seen := []
  anchor_le_top := le_rfl
  seen_bounds := by simp
  top_seen := .inl rfl
  nodup := nodup_nil

/-- A window opened by its first accepted counter. -/
def opened (a : Int) : Window where
  anchor := a
  top := a
  seen := [a]
  anchor_le_top := le_rfl
  seen_bounds := by simp
  top_seen := .inl rfl
  nodup := nodup_singleton a

/-- Counters that count as received: everything up to the anchor, and the seen ones. -/
def Known (w : Window) (u : Int) : Prop := u ≤ w.anchor ∨ u ∈ w.seen

/-- Counters that a window of the given size still accepts. -/
def Fresh (size : Int) (w : Window) (u : Int) : Prop :=
  w.top < u ∨ (w.top - size ≤ u ∧ u < w.top ∧ ¬ w.Known u)

theorem known_top (w : Window) : w.Known w.top := by
  rcases w.top_seen with h | h
  · exact .inl h.le
  · exact .inr h

theorem known_le_top (h : w.Known u) : u ≤ w.top := by
  rcases h with h | h
  · exact h.trans w.anchor_le_top
  · exact (w.seen_bounds u h).2

theorem fresh_not_known (h : w.Fresh size u) : ¬ w.Known u := by
  rcases h with h | h
  · intro hk
    have := known_le_top hk
    omega
  · exact h.2.2

/-- Accepting a fresh counter moves the top when the counter lies above it. -/
def insert (w : Window) (u : Int) (h : ¬ w.Known u) : Window where
  anchor := w.anchor
  top := max w.top u
  seen := u :: w.seen
  anchor_le_top := w.anchor_le_top.trans (le_max_left _ _)
  seen_bounds := by
    intro v hv
    rcases mem_cons.mp hv with rfl | hv
    · have : w.anchor < v := by
        by_contra hn
        exact h (.inl (by omega))
      exact ⟨this.le, le_max_right _ _⟩
    · have := w.seen_bounds v hv
      exact ⟨this.1, this.2.trans (le_max_left _ _)⟩
  top_seen := by
    rcases le_total w.top u with hu | hu
    · right
      simp [max_eq_right hu]
    · rw [max_eq_left hu]
      rcases w.top_seen with ht | ht
      · exact .inl ht
      · exact .inr (mem_cons_of_mem _ ht)
  nodup := nodup_cons.mpr ⟨fun hm => h (.inr hm), w.nodup⟩

variable (h : ¬ w.Known u)
include h

@[simp] theorem insert_anchor : (w.insert u h).anchor = w.anchor := rfl

@[simp] theorem insert_seen : (w.insert u h).seen = u :: w.seen := rfl

theorem insert_top_above (hu : w.top < u) : (w.insert u h).top = u :=
  max_eq_right hu.le

theorem insert_top_below (hu : u < w.top) : (w.insert u h).top = w.top :=
  max_eq_left hu.le

theorem known_insert : (w.insert u h).Known v ↔ v = u ∨ w.Known v := by
  simp only [Known, insert_seen, mem_cons]
  tauto

end Window

end ReplayWindow
