import Mathlib.Logic.Relation
import Mathlib.Data.List.Basic

/-!
# Depth-first search

A search for one node along the edges of a graph, with the nodes already visited. The recursion is
on fuel; with more fuel than there are nodes, it finds the node exactly when there is a path.
-/
namespace DepthFirst

open Relation List

variable {α : Type} {next : α → List α} {t a b : α} {u : Nat} {n vs v' : List α}
  {f : List α → α → Bool × List α}

/-- The edges as a relation. -/
def Edge (next : α → List α) (a b : α) : Prop := b ∈ next a

/-- A search that finds nothing has visited the successors of what it has visited. -/
structure Explored (next : α → List α) (target : α) (visited visited' : List α) : Prop where
  subset : visited ⊆ visited'
  closed : ∀ v ∈ visited', v ∈ visited ∨ v ≠ target ∧ next v ⊆ visited'

theorem Explored.refl (vs : List α) : Explored next t vs vs :=
  ⟨List.Subset.refl _, fun _ hv => .inl hv⟩

theorem Explored.trans {v1 v2 v3 : List α} (h12 : Explored next t v1 v2)
    (h23 : Explored next t v2 v3) : Explored next t v1 v3 := by
  refine ⟨List.Subset.trans h12.subset h23.subset, ?_⟩
  intro v hv
  rcases h23.closed v hv with hv2 | hn
  · rcases h12.closed v hv2 with hv1 | ⟨he, hs⟩
    · exact .inl hv1
    · exact .inr ⟨he, List.Subset.trans hs h23.subset⟩
  · exact .inr hn

variable [DecidableEq α]

/-- The nodes of a list in turn, but for those visited by then. -/
def visitAll (visit : List α → α → Bool × List α) :
    (nodes : List α) → (visited : List α) → Bool × List α
  | [], visited => (false, visited)
  | b :: nodes, visited =>
    if b ∈ visited then visitAll visit nodes visited
    else
      match visit visited b with
      | (true, visited) => (true, visited)
      | (false, visited) => visitAll visit nodes visited

def visit (next : α → List α) (target : α) :
    (fuel : Nat) → (visited : List α) → α → Bool × List α
  | 0, visited, _ => (false, visited)
  | fuel + 1, visited, a =>
    if a = target then (true, a :: visited)
    else visitAll (visit next target fuel) (next a) (a :: visited)

/-- The search from several nodes in turn. -/
def search (next : α → List α) (target : α) (fuel : Nat) :
    (nodes : List α) → (visited : List α) → Bool
  | [], _ => false
  | b :: nodes, visited =>
    match visit next target fuel visited b with
    | (true, _) => true
    | (false, visited) => search next target fuel nodes visited

/-! ### What is found is there -/

theorem visitAll_found (hf : ∀ vs b, (f vs b).1 → ReflTransGen (Edge next) b t)
    (h : (visitAll f n vs).1) : ∃ b ∈ n, ReflTransGen (Edge next) b t := by
  induction n generalizing vs with
  | nil => cases h
  | cons b n ih =>
    unfold visitAll at h
    split_ifs at h
    · obtain ⟨c, hc, hp⟩ := ih h
      exact ⟨c, mem_cons_of_mem _ hc, hp⟩
    · split at h
      · rename_i v' hv
        exact ⟨b, mem_cons_self, hf vs b (by rw [hv])⟩
      · obtain ⟨c, hc, hp⟩ := ih h
        exact ⟨c, mem_cons_of_mem _ hc, hp⟩

theorem visit_found (h : (visit next t u vs a).1) : ReflTransGen (Edge next) a t := by
  induction u generalizing vs a with
  | zero => cases h
  | succ u ih =>
    unfold visit at h
    split_ifs at h with he
    · rw [he]
    · obtain ⟨b, hb, hp⟩ := visitAll_found (fun _ _ => ih) h
      exact .head hb hp

/-! ### What is there is found -/

/-- The nodes of a finite graph that are not visited. -/
def unvisited (graph visited : List α) : Nat := graph.countP (fun a => a ∉ visited)

variable {g : List α}

theorem unvisited_mono (h : vs ⊆ v') : unvisited g v' ≤ unvisited g vs := by
  refine countP_mono_left ?_
  intro a _ ha
  simp only [decide_eq_true_eq] at ha ⊢
  exact fun hm => ha (h hm)

theorem unvisited_cons_lt (hm : a ∈ g) (hn : a ∉ vs) : unvisited g (a :: vs) < unvisited g vs := by
  induction g with
  | nil => cases hm
  | cons b g ih =>
    have hl : unvisited g (a :: vs) ≤ unvisited g vs :=
      unvisited_mono (subset_cons_self _ _)
    unfold unvisited at ih hl ⊢
    rw [countP_cons, countP_cons]
    by_cases hb : b = a
    · subst hb
      rw [if_neg (by simp), if_pos (by simpa using hn)]
      omega
    · have ht := ih ((mem_cons.mp hm).resolve_left (Ne.symm hb))
      have hs : (decide (b ∉ a :: vs)) = decide (b ∉ vs) := by simp [hb]
      rw [hs]
      omega

theorem visitAll_explored (u : Nat) (hf : ∀ vs b, b ∈ g → b ∉ vs → unvisited g vs ≤ u →
    (f vs b).1 = false → Explored next t vs (f vs b).2 ∧ b ∈ (f vs b).2) (hn : n ⊆ g)
    (hl : unvisited g vs ≤ u) (h : (visitAll f n vs).1 = false) :
    Explored next t vs (visitAll f n vs).2 ∧ n ⊆ (visitAll f n vs).2 := by
  induction n generalizing vs with
  | nil => exact ⟨.refl _, nil_subset _⟩
  | cons b n ih =>
    have hb := hn mem_cons_self
    have hrs := List.Subset.trans (subset_cons_self b n) hn
    unfold visitAll at h ⊢
    split_ifs at h ⊢ with hm
    · obtain ⟨he, hs⟩ := ih hrs hl h
      exact ⟨he, cons_subset.mpr ⟨he.subset hm, hs⟩⟩
    · have hv := hf vs b hb hm hl
      generalize f vs b = result at h hv
      obtain ⟨found, v'⟩ := result
      cases found with
      | true => cases h
      | false =>
        obtain ⟨he, hm'⟩ := hv rfl
        obtain ⟨he', hs⟩ :=
          ih hrs (Nat.le_trans (unvisited_mono he.subset) hl) h
        exact ⟨he.trans he', cons_subset.mpr ⟨he'.subset hm', hs⟩⟩

theorem visit_explored (t : α) (hclosed : ∀ v ∈ g, next v ⊆ g)
    (ha : a ∈ g) (hf : unvisited g (a :: vs) < u) (h : (visit next t u vs a).1 = false) :
    Explored next t vs (visit next t u vs a).2 ∧ a ∈ (visit next t u vs a).2 := by
  induction u generalizing vs a with
  | zero => omega
  | succ u ih =>
    unfold visit at h ⊢
    split_ifs at h ⊢ with hq
    obtain ⟨he, hs⟩ := visitAll_explored u (by
        intro vs b hb hn hl hnn
        exact ih hb (Nat.lt_of_lt_of_le (unvisited_cons_lt hb hn) hl) hnn)
      (hclosed a ha) (Nat.le_of_lt_succ hf) h
    have hm := he.subset mem_cons_self
    refine ⟨⟨List.Subset.trans (subset_cons_self _ _) he.subset, ?_⟩, hm⟩
    intro v hv
    rcases he.closed v hv with hv' | hn
    · rcases mem_cons.mp hv' with rfl | hv'
      · exact .inr ⟨hq, hs⟩
      · exact .inl hv'
    · exact .inr hn

variable (hclosed : ∀ v ∈ g, next v ⊆ g)
include hclosed

theorem search_explored (hn : n ⊆ g) (hf : g.length < u)
    (h : search next t u n vs = false) : ∃ v', Explored next t vs v' ∧ n ⊆ v' := by
  induction n generalizing vs with
  | nil => exact ⟨vs, .refl _, nil_subset _⟩
  | cons b n ih =>
    have hb := hn mem_cons_self
    have hrs := List.Subset.trans (subset_cons_self b n) hn
    have hl : unvisited g (b :: vs) < u :=
      Nat.lt_of_le_of_lt countP_le_length hf
    have hv := visit_explored t hclosed hb hl
    unfold search at h
    generalize visit next t u vs b = re at h hv
    obtain ⟨found, v'⟩ := re
    cases found with
    | true => cases h
    | false =>
      obtain ⟨he, hm⟩ := hv rfl
      obtain ⟨v'', he', hs⟩ := ih hrs h
      exact ⟨v'', he.trans he', cons_subset.mpr ⟨he'.subset hm, hs⟩⟩

/-- With enough fuel the search finds the target exactly when there is a path to it. -/
theorem search_iff (hn : n ⊆ g) (hf : g.length < u) :
    search next t u n [] ↔ ∃ b ∈ n, ReflTransGen (Edge next) b t := by
  constructor
  · generalize ([] : List α) = vs
    intro h
    clear hn
    induction n generalizing vs with
    | nil => cases h
    | cons b n ih =>
      unfold search at h
      split at h
      · rename_i v' hv
        exact ⟨b, mem_cons_self, visit_found (by rw [hv])⟩
      · obtain ⟨c, hc, hp⟩ := ih _ h
        exact ⟨c, mem_cons_of_mem _ hc, hp⟩
  · rintro ⟨b, hb, hp⟩
    by_contra hnn
    obtain ⟨v', he, hs⟩ :=
      search_explored hclosed hn hf (Bool.eq_false_iff.mpr hnn)
    -- The visited nodes are closed under the edges and do not have the target among them.
    have hr : ∀ c, ReflTransGen (Edge next) b c → c ∈ v' := by
      intro c hc
      induction hc with
      | refl => exact hs hb
      | tail _ hd ih =>
        exact ((he.closed _ ih).resolve_left not_mem_nil).2 hd
    exact ((he.closed _ (hr t hp)).resolve_left not_mem_nil).1 rfl

end DepthFirst
