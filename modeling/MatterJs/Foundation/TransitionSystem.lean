import MatterJs.Foundation.IndexedList
import Mathlib.Tactic.Common

/-! Labelled transition systems given by a partial step function. -/
namespace TransitionSystem

variable {State Label : Type} {st : State → Label → Option State} {s t u : State}
  {l : Label} {ls ms : List Label} {G : State → Label → Prop} {I : State → Prop}

/-- Finite runs, with the labels in the order they are taken. -/
inductive Run (step : State → Label → Option State) : State → List Label → State → Prop
  | refl (s : State) : Run step s [] s
  | stepL {s t u : State} {l : Label} {ls : List Label} :
      step s l = some t → Run step t ls u → Run step s (l :: ls) u

/-- The run of a list of labels, computed. -/
def exec (step : State → Label → Option State) : State → List Label → Option State
  | s, [] => some s
  | s, l :: ls => (step s l).bind (fun t => exec step t ls)

/-- The steps whose label and source state meet a condition. -/
def guarded (step : State → Label → Option State) (G : State → Label → Prop)
    [∀ s l, Decidable (G s l)] (s : State) (l : Label) : Option State :=
  if G s l then step s l else none

/-- Whether each label, as far as the run of the labels gets, is taken in a state that meets a
condition. -/
def along (step : State → Label → Option State) (G : State → Label → Bool) :
    State → List Label → Bool
  | _, [] => true
  | s, l :: ls => G s l && (step s l).all (fun t => along step G t ls)

theorem guarded_eq_some [∀ s l, Decidable (G s l)] :
    guarded st G s l = some t ↔ G s l ∧ st s l = some t := by
  simp [guarded]

/-- A step that is possible under a condition. -/
theorem of_enabled {p : Prop} [Decidable p] (h : (if p then some s else none) = some t) :
    p ∧ s = t := by
  simpa using h

theorem run_of_exec (h : exec st s ls = some t) : Run st s ls t := by
  induction ls generalizing s with
  | nil =>
    obtain rfl : s = t := Option.some.inj h
    exact .refl s
  | cons l ls ih =>
    obtain ⟨u, hu, ht⟩ := Option.bind_eq_some_iff.mp h
    exact .stepL hu (ih ht)

/-- What a computed run ends in, with what follows for every run of its labels. -/
theorem exec_and_of_run {P Q : State → Prop} (h : ∃ t, exec st s ls = some t ∧ P t)
    (hu : ∀ t, Run st s ls t → P t → Q t) : ∃ t, exec st s ls = some t ∧ Q t := by
  obtain ⟨t, ht, hp⟩ := h
  exact ⟨t, ht, hu t (run_of_exec ht) hp⟩

theorem exec_append (s : State) (ls ms : List Label) :
    exec st s (ls ++ ms) = (exec st s ls).bind (fun t => exec st t ms) := by
  induction ls generalizing s with
  | nil => rfl
  | cons l ls ih =>
    simp only [List.cons_append, exec]
    cases st s l with
    | none => rfl
    | some t => exact ih t

theorem along_append {G : State → Label → Bool} (h : along st G s (ls ++ ms)) :
    along st G s ls ∧ ∀ t, exec st s ls = some t → along st G t ms := by
  induction ls generalizing s with
  | nil =>
    refine ⟨rfl, ?_⟩
    intro t ht
    obtain rfl : s = t := Option.some.inj ht
    exact h
  | cons l ls ih =>
    simp only [List.cons_append, along, Bool.and_eq_true, Option.all_eq_true] at h ⊢
    refine ⟨⟨h.1, fun t ht => (ih (h.2 t ht)).1⟩, ?_⟩
    intro u hu
    obtain ⟨t, ht, hs⟩ := Option.bind_eq_some_iff.mp hu
    exact (ih (h.2 t ht)).2 u hs

/-- A predicate that every step preserves holds along every run. -/
theorem run_invariant (ht : ∀ s l t, st s l = some t → I s → I t)
    (h : Run st s ls t) (hs : I s) : I t := by
  induction h with
  | refl => exact hs
  | stepL hl _ ih => exact ih (ht _ _ _ hl hs)

theorem guarded_invariant [∀ s l, Decidable (G s l)] (ht : ∀ s l t, G s l → st s l = some t → I s →
    I t) (h : Run (guarded st G) s ls t) (hs : I s) : I t := by
  refine run_invariant ?_ h hs
  intro s l t hl
  obtain ⟨hg, hl⟩ := guarded_eq_some.mp hl
  exact ht s l t hg hl

end TransitionSystem
