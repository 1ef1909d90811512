import Mathlib.Tactic.Common

/-!
# Channels

What is in flight on a channel that keeps the order, as the steps that lead from the
receiver's view of the sender to the sender's own.
-/
namespace Channel

variable {α σ : Type} {R : σ → α → σ → Prop} {u v w : σ} {a : α} {as : List α}

/-- The items of a list lead from one view to another. -/
inductive Leads (R : σ → α → σ → Prop) : σ → List α → σ → Prop
  | nil (u : σ) : Leads R u [] u
  | cons {u v w : σ} {a : α} {as : List α} : R u a v → Leads R v as w → Leads R u (a :: as) w

theorem leads_cons (h : Leads R u (a :: as) w) : ∃ v, R u a v ∧ Leads R v as w := by
  cases h with
  | cons ha has => exact ⟨_, ha, has⟩

theorem Leads.snoc (h : Leads R u as v) (ha : R v a w) : Leads R u (as ++ [a]) w := by
  induction h with
  | nil => exact .cons ha (.nil w)
  | cons hb _ ih => exact .cons hb (ih ha)

/-- A change of the views that keeps every step. -/
theorem Leads.map {f : σ → σ} (hf : ∀ u a v, R u a v → R (f u) a (f v)) (h : Leads R u as v) :
    Leads R (f u) as (f v) := by
  induction h with
  | nil => exact .nil _
  | cons ha _ ih => exact .cons (hf _ _ _ ha) ih

/-- What the steps bound in one direction, the channel bounds. -/
theorem Leads.monotone {f : σ → Nat} (hf : ∀ u a v, R u a v → f u ≤ f v) (h : Leads R u as v) :
    f u ≤ f v := by
  induction h with
  | nil => exact Nat.le_refl _
  | cons ha _ ih => exact Nat.le_trans (hf _ _ _ ha) ih

end Channel
