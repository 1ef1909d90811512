import MatterJs.Interaction.WriteRequest
import MatterJs.Foundation.TransitionSystem

/-!
# The entries of a write interaction one after another

The batches of `handleWriteRequest` make no difference to what is written and answered: its entries
are processed in their order. Then what one write does to the list it writes.
-/
namespace MatterJs.WriteInteraction

open MatterJs.Action StateExcept TransitionSystem

section Sequence

variable {δ α : Type} [DecidableEq α] (b : Behavior δ α) (n : Node) (u : Session)

/-- One entry, without batches. -/
def handleEntry (previous : Option AttributeLocation) (request : AttributeData δ) :
    WriteM α (List AttributeStatus) :=
  if isBusy previous request.path then pure [⟨request.path, .busy, none⟩]
  else processEntry b n u request

/-- The entries one after another. -/
def inOrder (previous : Option AttributeLocation) :
    List (AttributeData δ) → WriteM α (Option AttributeLocation × List AttributeStatus)
  | [] => pure (previous, [])
  | request :: requests => do
    let statuses ← handleEntry b n u previous request
    let (last, others) ← inOrder (nextPrevious previous request.path) requests
    pure (last, statuses ++ others)

/-- An entry that ends without an error, as a step. -/
def entryStep (progress : Option AttributeLocation × Store α) (request : AttributeData δ) :
    Option (Option AttributeLocation × Store α) :=
  match outcome (handleEntry b n u progress.1 request) progress.2 with
  | (.ok _, store) => some (nextPrevious progress.1 request.path, store)
  | (.error _, _) => none

theorem process_append (e o : List (AttributeData δ)) :
    process b n u (e ++ o) = (do
      let statuses ← process (α := α) b n u e
      let rest ← process b n u o
      pure (statuses ++ rest)) := by
  induction e with
  | nil => simp [process]
  | cons entry e ih =>
    simp only [List.cons_append, process, ih, bind_assoc, pure_bind, List.append_assoc]

theorem process_singleton (entry : AttributeData δ) :
    process b n u [entry] = processEntry (α := α) b n u entry := by
  simp [process]

/-- The batches pass the entries on in their order. -/
theorem handleEntries_eq_inOrder (p : Option AttributeLocation)
    (c : List (AttributeData δ)) (r : List AttributeStatus) (rs : List (AttributeData δ)) :
    handleEntries b n u p c r rs = (do
      let statuses ← process (α := α) b n u c
      let (last, others) ← inOrder b n u p rs
      pure (last, r ++ statuses ++ others)) := by
  induction rs generalizing p c r with
  | nil => simp [handleEntries, inOrder]
  | cons e rs ih =>
    by_cases hb : isBusy p e.path
    · simp [handleEntries, inOrder, handleEntry, nextPrevious, hb, ih, process]
    · simp [handleEntries, inOrder, handleEntry, hb, ih, process_append, process_singleton]

theorem inOrder_append (p : Option AttributeLocation) (rs o : List (AttributeData δ)) :
    inOrder b n u p (rs ++ o) = (do
      let (last, statuses) ← inOrder (α := α) b n u p rs
      let (final, rest) ← inOrder b n u last o
      pure (final, statuses ++ rest)) := by
  induction rs generalizing p with
  | nil => simp [inOrder]
  | cons r rs ih =>
    simp [inOrder, ih]

variable {b n u} in
theorem inOrder_append_eq_ok {p l : Option AttributeLocation} {s f : Store α}
    {rs o : List (AttributeData δ)} {ss : List AttributeStatus}
    (h : outcome (inOrder b n u p (rs ++ o)) s = (.ok (l, ss), f)) :
    ∃ m r next rest, outcome (inOrder b n u p rs) s = (.ok (m, r), next) ∧
        outcome (inOrder b n u m o) next = (.ok (l, rest), f) ∧ ss = r ++ rest := by
  rw [inOrder_append] at h
  rcases hf : outcome (inOrder b n u p rs) s with
    ⟨failure | ⟨m, r⟩, next⟩
  · rw [outcome_bind_error hf] at h
    cases h
  rw [outcome_bind_ok hf] at h
  rcases hs : outcome (inOrder b n u m o) next with
    ⟨failure | ⟨last', rest⟩, final'⟩
  · rw [outcome_bind_error hs] at h
    cases h
  rw [outcome_bind_ok hs] at h
  obtain ⟨⟨rfl, rfl⟩, rfl⟩ := h
  exact ⟨m, r, next, rest, rfl, hs, rfl⟩

theorem outcome_handleEntries (p : Option AttributeLocation) (store : Store α)
    (rs : List (AttributeData δ)) : outcome (handleEntries b n u p [] [] rs) store =
      outcome (inOrder b n u p rs) store := by
  simp [handleEntries_eq_inOrder, process]

/-- Entries that end without an error are a run of steps. -/
theorem exec_of_inOrder {p l : Option AttributeLocation} {s f : Store α}
    {rs : List (AttributeData δ)} {ss : List AttributeStatus}
    (h : outcome (inOrder b n u p rs) s = (.ok (l, ss), f)) :
    exec (entryStep b n u) (p, s) rs = some (l, f) := by
  induction rs generalizing p s ss with
  | nil =>
    simp only [inOrder, outcome_pure, Prod.mk.injEq, Except.ok.injEq] at h
    simp [exec, h.1.1, h.2]
  | cons r rs ih =>
    rcases he : outcome (handleEntry b n u p r) s with
      ⟨fa | first, next⟩
    · simp [inOrder, outcome_bind, he] at h
    · simp only [inOrder, outcome_bind_ok he] at h
      rcases hs : outcome (inOrder b n u (nextPrevious p r.path)
        rs) next with ⟨fa | ⟨last', o⟩, f'⟩
      · rw [outcome_bind_error hs] at h
        cases h
      · simp only [outcome_bind_ok hs] at h
        obtain ⟨⟨rfl, _⟩, rfl⟩ := h
        simp only [exec, entryStep, he]
        exact ih hs

end Sequence

/-! ### What a write does to a list -/

section Content

variable {δ α : Type} {b : Behavior δ α} {u : Session}
  {t : AttributeType} {v d : Value α} {xs : List α} {x : α} {l : AttributeLocation}
  {i : ListIndex} {c : Change α}

theorem own_map (f : Nat) (xs : List α) : ((xs.map (f, ·)).filter (·.1 = f)).map Prod.snd = xs := by
  rw [List.filter_eq_self.mpr (by simp)]
  simp [Function.comp_def]

theorem own_mergeScoped (f : Nat) (e : List (Nat × α)) (it : List α) :
    ((mergeScoped f e it).filter (·.1 = f)).map Prod.snd = it := by
  induction e generalizing it with
  | nil => exact own_map f it
  | cons n e ih =>
    by_cases ho : n.1 = f
    · cases it with
      | nil => simpa [mergeScoped, ho] using ih []
      | cons x it => simpa [mergeScoped, ho] using ih it
    · simpa [mergeScoped, ho] using ih it

theorem content_replaceAll (h : applyChange u t d (.replaceAll xs) = .ok v) :
    content u t v = xs := by
  simp only [applyChange] at h
  split at h
  · next e hs =>
    cases h
    simpa [content, hs] using own_mergeScoped u.fabric e xs
  · cases h
    by_cases hs : t.limits.fabricScoped
    · simpa [content, entryFabric, hs] using own_map u.fabric xs
    · simp [content, hs, Function.comp_def]

theorem content_add (h : applyChange u t d (.add x) = .ok v) :
    content u t v = content u t d ++ [x] := by
  simp only [applyChange] at h
  split at h
  · cases h
    by_cases hs : t.limits.fabricScoped
    · simp [content, entryFabric, hs]
    · simp [content, hs]
  · cases h

theorem attempt_eq_ok {s : AttributeState α} {data : δ}
    (h : attempt b u t s l i data = .ok (c, v)) : decodeChange b t l i data = .ok c ∧
      applyChange u t (s.values l) c = .ok v := by
  unfold attempt at h
  split at h
  · cases h
  · next d hd =>
    split at h
    · cases h
    · next a ha =>
      split at h
      · cases h
      · simp only [Except.ok.injEq] at h
        obtain ⟨rfl, rfl⟩ := h
        exact ⟨hd, ha⟩

/-- Lists are replaced or added to, other values assigned. -/
theorem decodeChange_eq_ok {data : δ} (h : decodeChange b t l i data = .ok c) : (i = .absent ∧
    t.isArray ∧ ∃ xs, c = .replaceAll xs) ∨ (i = .absent ∧ t.isArray = false ∧ ∃ v, c = .assign v) ∨
    (i = .null ∧ t.isArray ∧ ∃ x, c = .add x) := by
  have hm : ∀ {β : Type} {d : Except Failure β} {f : β → Change α},
      d.map f = .ok c → ∃ a, c = f a := by
    intro β d f hd
    cases d with
    | error => cases hd
    | ok a => exact ⟨a, (Except.ok.inj hd).symm⟩
  unfold decodeChange at h
  cases i with
  | absent =>
    cases ha : t.isArray with
    | true => exact .inl ⟨rfl, rfl, hm (by simpa [ha] using h)⟩
    | false => exact .inr (.inl ⟨rfl, rfl, hm (by simpa [ha] using h)⟩)
  | null =>
    cases ha : t.isArray with
    | true => exact .inr (.inr ⟨rfl, rfl, hm (by simpa [ha] using h)⟩)
    | false => simp [ha] at h
  | «at» index => cases h

end Content

end MatterJs.WriteInteraction
