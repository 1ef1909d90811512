import Mathlib.Tactic.Common

/-!
# Generators

A generator that has run to its end: what it yielded on the way, and its result or
the error that ended it.
-/

structure Gen (ε α β : Type) where
  yielded : List α
  result : Except ε β

namespace Gen

variable {ε α β γ σ : Type} (g : Gen ε α β) (f : β → Gen ε α γ)

/-- A generator that throws ends the one that delegates to it. -/
def andThen : Gen ε α γ :=
  match g.result with
  | .ok b => ⟨g.yielded ++ (f b).yielded, (f b).result⟩
  | .error e => ⟨g.yielded, .error e⟩

instance : Monad (Gen ε α) where
  pure b := ⟨[], .ok b⟩
  bind := andThen

def yield (a : α) : Gen ε α Unit := ⟨[a], .ok ()⟩

/-- A computation that yields nothing. -/
def lift : Except ε β → Gen ε α β := fun result => ⟨[], result⟩

@[simp] theorem ok_andThen (x : List α) (b : β) (f : β → Gen ε α γ) :
    (⟨x, .ok b⟩ >>= f : Gen ε α γ) = ⟨x ++ (f b).yielded, (f b).result⟩ := rfl

@[simp] theorem error_andThen (x : List α) (e : ε) (f : β → Gen ε α γ) :
    (⟨x, .error e⟩ >>= f : Gen ε α γ) = ⟨x, .error e⟩ := rfl

theorem pure_andThen (b : β) (f : β → Gen ε α γ) : (pure b >>= f : Gen ε α γ) = f b := rfl

theorem andThen_pure : g >>= pure = g := by
  obtain ⟨x, e | b⟩ := g
  · rfl
  · exact congrArg (Gen.mk · _) (List.append_nil x)

theorem andThen_assoc (h : γ → Gen ε α σ) : g >>= f >>= h = g >>= fun b => f b >>= h := by
  obtain ⟨x, e | b⟩ := g
  · rfl
  · simp only [ok_andThen]
    obtain ⟨y, e | c⟩ := f b
    · rfl
    · simp

instance : LawfulMonad (Gen ε α) :=
  LawfulMonad.mk' _ andThen_pure pure_andThen andThen_assoc

variable {g}

/-- What follows a generator matters only for the result it returns. -/
theorem andThen_congr {f h : β → Gen ε α γ}
    (hb : ∀ b, g.result = .ok b → f b = h b) : g >>= f = g >>= h := by
  obtain ⟨x, e | b⟩ := g
  · rfl
  · simp [hb b rfl]

variable {f}

theorem result_andThen {c : γ}
    (h : (g >>= f).result = .ok c) : ∃ b, g.result = .ok b ∧ (f b).result = .ok c := by
  obtain ⟨x, e | b⟩ := g
  · cases h
  · exact ⟨b, rfl, h⟩

theorem result_andThen_ok {b : β} (h : g.result = .ok b) : (g >>= f).result = (f b).result := by
  obtain ⟨x, result⟩ := g
  obtain rfl : result = .ok b := h
  rfl

/-- What every pass of a loop preserves, the loop preserves. -/
theorem foldlM_invariant {I : σ → Prop} {f : σ → β → Gen ε α σ}
    (hf : ∀ s b t, I s → (f s b).result = .ok t → I t) {bs : List β} {s t : σ} (hs : I s)
    (h : (bs.foldlM f s).result = .ok t) : I t := by
  induction bs generalizing s with
  | nil =>
    obtain rfl : s = t := Except.ok.inj h
    exact hs
  | cons b bs ih =>
    obtain ⟨u, hu, ht⟩ := result_andThen h
    exact ih (hf s b u hs hu) ht

end Gen
