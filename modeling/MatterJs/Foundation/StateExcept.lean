import Mathlib.Tactic.Common

/-! Computations that change a state and may end in an error, which leaves the state as it is. -/
namespace StateExcept

variable {ε σ β γ : Type} {s t : σ} {e : ε} {b : β} (x : ExceptT ε (StateM σ) β)

/-- The outcome of a computation, with the state that it ends in. -/
def outcome (s : σ) : Except ε β × σ :=
  x.run.run s

@[simp] theorem outcome_pure : outcome (pure b : ExceptT ε (StateM σ) β) s = (.ok b, s) := rfl

@[simp] theorem outcome_throw : outcome (throw e : ExceptT ε (StateM σ) β) s = (.error e, s) := rfl

@[simp] theorem outcome_get_bind (f : σ → ExceptT ε (StateM σ) β) :
    outcome (get >>= f) s = outcome (f s) s := rfl

@[simp] theorem outcome_set_bind (f : PUnit → ExceptT ε (StateM σ) β) :
    outcome (set t >>= f) s = outcome (f ⟨⟩) t := rfl

theorem outcome_bind (f : β → ExceptT ε (StateM σ) γ) :
    outcome (x >>= f) s =
      match outcome x s with
      | (.ok b, t) => outcome (f b) t
      | (.error e, t) => (.error e, t) := by
  unfold outcome
  rw [ExceptT.run_bind, StateT.run_bind]
  rcases h : x.run.run s with ⟨e | b, t⟩ <;> rfl

variable {x}

variable {f : β → ExceptT ε (StateM σ) γ}

theorem outcome_bind_ok (h : outcome x s = (.ok b, t)) : outcome (x >>= f) s = outcome (f b) t := by
  rw [outcome_bind, h]

theorem outcome_bind_error
    (h : outcome x s = (.error e, t)) : outcome (x >>= f) s = (.error e, t) := by
  rw [outcome_bind, h]

end StateExcept
