import Mathlib.Data.List.Nodup
import Mathlib.Logic.Function.Basic

/-! Indices of a set by a key of its items. A key leads to one item, the first that has it. -/
namespace KeyIndex

open Function

variable {κ α : Type} {key : α → κ} {index : κ → Option α} {items : List α} {a b : α}

/-- The index finds exactly the items, so no two of them share a key. -/
def Indexes (key : α → κ) (index : κ → Option α) (items : List α) : Prop :=
  ∀ k a, index k = some a ↔ a ∈ items ∧ key a = k

theorem indexes_nil : Indexes key (fun _ => none) [] := by
  intro k a
  simp

theorem Indexes.eq_of_key_eq (h : Indexes key index items) (ha : a ∈ items) (hb : b ∈ items)
    (he : key a = key b) : a = b := by
  have hf := (h (key a) a).mpr ⟨ha, rfl⟩
  have hf' := (h (key a) b).mpr ⟨hb, he.symm⟩
  exact Option.mem_unique hf hf'

theorem Indexes.eq_none_iff (h : Indexes key index items) {k : κ} :
    index k = none ↔ ∀ a ∈ items, key a ≠ k := by
  constructor
  · intro hn a ha he
    have hf := (h k a).mpr ⟨ha, he⟩
    simp [hn] at hf
  · intro hn
    rw [Option.eq_none_iff_forall_ne_some]
    intro a ha
    obtain ⟨hm, he⟩ := (h k a).mp ha
    exact hn a hm he

variable [DecidableEq κ]

def add (key : α → κ) (index : κ → Option α) (a : α) : κ → Option α :=
  if (index (key a)).isSome then index else update index (key a) (some a)

theorem Indexes.add (h : Indexes key index items) (hf : index (key a) = none) :
    Indexes key (KeyIndex.add key index a) (items ++ [a]) := by
  intro k b
  have ha : KeyIndex.add key index a = update index (key a) (some a) := by
    simp [KeyIndex.add, hf]
  rw [ha, List.mem_append, List.mem_singleton]
  by_cases hk : k = key a
  · subst hk
    rw [update_self]
    constructor
    · intro hb
      cases hb
      exact ⟨.inr rfl, rfl⟩
    · rintro ⟨hb | rfl, he⟩
      · exact absurd he (h.eq_none_iff.mp hf b hb)
      · rfl
  · rw [update_of_ne hk, h k b]
    constructor
    · rintro ⟨hb, he⟩
      exact ⟨.inl hb, he⟩
    · rintro ⟨hb | rfl, he⟩
      · exact ⟨hb, he⟩
      · exact absurd he.symm hk

variable [DecidableEq α]

def delete (key : α → κ) (index : κ → Option α) (a : α) : κ → Option α :=
  if index (key a) = some a then update index (key a) none else index

theorem Indexes.delete (h : Indexes key index items) (hnd : items.Nodup) (ha : a ∈ items) :
    Indexes key (KeyIndex.delete key index a) (items.erase a) := by
  intro k b
  have hd : KeyIndex.delete key index a = update index (key a) none := by
    simp [KeyIndex.delete, (h (key a) a).mpr ⟨ha, rfl⟩]
  rw [hd, hnd.mem_erase_iff]
  by_cases hk : k = key a
  · subst hk
    rw [update_self]
    constructor
    · intro hb
      cases hb
    · rintro ⟨⟨hn, hb⟩, he⟩
      exact absurd (h.eq_of_key_eq hb ha he) hn
  · rw [update_of_ne hk, h k b]
    constructor
    · rintro ⟨hb, he⟩
      refine ⟨⟨?_, hb⟩, he⟩
      rintro rfl
      exact hk he.symm
    · rintro ⟨⟨-, hb⟩, he⟩
      exact ⟨hb, he⟩

end KeyIndex

/-- A set with an index by one key. -/
structure KeySet {κ α : Type} (key : α → κ) where
  entries : List α
  index : κ → Option α
  key_eq : ∀ k a, index k = some a → key a = k

namespace KeySet

variable {κ α : Type} [DecidableEq κ] {key : α → κ} {index : κ → Option α} {k : κ}
  {set : KeySet key} {a b : α}

theorem key_eq_add (h : ∀ k a, index k = some a → key a = k)
    (hb : KeyIndex.add key index a k = some b) : key b = k := by
  unfold KeyIndex.add at hb
  split_ifs at hb
  · exact h k b hb
  · by_cases hk : k = key a
    · subst hk
      rw [Function.update_self] at hb
      rw [Option.some.inj hb]
    · rw [Function.update_of_ne hk] at hb
      exact h k b hb

variable [DecidableEq α]

theorem key_eq_delete (h : ∀ k a, index k = some a → key a = k)
    (hb : KeyIndex.delete key index a k = some b) : key b = k := by
  unfold KeyIndex.delete at hb
  split_ifs at hb
  · by_cases hk : k = key a
    · rw [hk, Function.update_self] at hb
      cases hb
    · rw [Function.update_of_ne hk] at hb
      exact h k b hb
  · exact h k b hb

def empty : KeySet key := ⟨[], fun _ => none, fun _ _ h => absurd h.symm (Option.some_ne_none _)⟩

def add (set : KeySet key) (a : α) : KeySet key :=
  if a ∈ set.entries then set
  else ⟨set.entries ++ [a], KeyIndex.add key set.index a, fun _ _ => key_eq_add set.key_eq⟩

def delete (set : KeySet key) (a : α) : KeySet key :=
  if a ∈ set.entries then
    ⟨set.entries.erase a, KeyIndex.delete key set.index a, fun _ _ => key_eq_delete set.key_eq⟩
  else set

/-- No two entries have one key, and the index finds them all. -/
def Exact (set : KeySet key) : Prop :=
  set.entries.Nodup ∧ KeyIndex.Indexes key set.index set.entries

theorem Exact.add (h : set.Exact) (hf : ∀ b ∈ set.entries, key b ≠ key a) : (set.add a).Exact := by
  have hn : a ∉ set.entries := fun ha => hf a ha rfl
  rw [KeySet.add, if_neg hn]
  exact ⟨List.concat_eq_append ▸ h.1.concat hn, h.2.add (h.2.eq_none_iff.mpr hf)⟩

theorem Exact.delete (h : set.Exact) : (set.delete a).Exact := by
  unfold KeySet.delete
  split_ifs with ha
  · exact ⟨h.1.erase a, h.2.delete h.1 ha⟩
  · exact h

end KeySet
