import Mathlib.Logic.Relation

/-!
# Acyclic relations

What edges from one node do to a relation without cycles: there is a cycle afterwards exactly when
a target of the new edges led back to the node before.
-/
namespace Cycles

open Relation

variable {α : Type} {r r' : α → α → Prop} {t a b c : α} {ts : List α}

def Acyclic (r : α → α → Prop) : Prop := ∀ a, ¬ TransGen r a a

theorem Acyclic.mono (h : Acyclic r) (hl : ∀ a b, r' a b → r a b) : Acyclic r' := by
  intro a hc
  exact h a (TransGen.mono hl a a hc)

/-- Edges from one node are added. -/
def addEdges (r : α → α → Prop) (t : α) (targets : List α) (a b : α) : Prop :=
  r a b ∨ (a = t ∧ b ∈ targets)

/-- A path either has old edges only, or there is an old path from the last of its new edges. -/
theorem path_cases (h : TransGen (addEdges r t ts) a c) :
    TransGen r a c ∨ ∃ b ∈ ts, ReflTransGen r b c := by
  induction h with
  | single he =>
    rcases he with ho | ⟨-, hm⟩
    · exact .inl (.single ho)
    · exact .inr ⟨_, hm, .refl⟩
  | tail _ he ih =>
    rcases he with ho | ⟨-, hm⟩
    · rcases ih with hp | ⟨b, hb, hp⟩
      · exact .inl (hp.tail ho)
      · exact .inr ⟨b, hb, hp.tail ho⟩
    · exact .inr ⟨_, hm, .refl⟩

/-- A path either has old edges only, or it leads to the node the new edges start from. -/
theorem path_leads (h : TransGen (addEdges r t ts) a c) : TransGen r a c ∨ ReflTransGen r a t := by
  induction h using TransGen.head_induction_on with
  | single he =>
    rcases he with ho | ⟨rfl, -⟩
    · exact .inl (.single ho)
    · exact .inr .refl
  | head he _ ih =>
    rcases he with ho | ⟨rfl, -⟩
    · rcases ih with hp | hp
      · exact .inl (.head ho hp)
      · exact .inr (.head ho hp)
    · exact .inr .refl

theorem addEdges_cycle_iff (h : Acyclic r) :
    (∃ a, TransGen (addEdges r t ts) a a) ↔ ∃ b ∈ ts, ReflTransGen r b t := by
  constructor
  · rintro ⟨a, hc⟩
    rcases path_cases hc with ho | ⟨b, hb, hp⟩
    · exact absurd ho (h a)
    · rcases path_leads hc with ho | hl
      · exact absurd ho (h a)
      · exact ⟨b, hb, hp.trans hl⟩
  · rintro ⟨b, hb, hp⟩
    refine ⟨t, TransGen.head' (.inr ⟨rfl, hb⟩) ?_⟩
    exact ReflTransGen.mono (fun _ _ ho => .inl ho) b t hp

theorem Acyclic.addEdges (h : Acyclic r) (hp : ∀ b ∈ ts, ¬ ReflTransGen r b t) :
    Acyclic (addEdges r t ts) := by
  intro a hc
  obtain ⟨b, hb, ht⟩ := (addEdges_cycle_iff h).mp ⟨a, hc⟩
  exact hp b hb ht

end Cycles
