import Mathlib.Tactic.Common

/-!
# Maps in insertion order

A map as the list of its entries, the oldest first. Setting a key that is there keeps its
place.
-/
namespace InsertionMap

open List Prod

variable {κ α : Type} [DecidableEq κ]

def get : List (κ × α) → κ → Option α
  | [], _ => none
  | (k, a) :: m, key => if k = key then some a else get m key

def set : List (κ × α) → κ → α → List (κ × α)
  | [], key, value => [(key, value)]
  | (k, a) :: m, key, value => if k = key then (k, value) :: m else (k, a) :: set m key value

def delete (m : List (κ × α)) (key : κ) : List (κ × α) := m.filter (·.1 ≠ key)

def values (m : List (κ × α)) : List α := m.map snd

variable {m : List (κ × α)} {key key' : κ} {v : α}

@[simp] theorem get_nil (key : κ) : get ([] : List (κ × α)) key = none := rfl

theorem get_cons (m : List (κ × α)) (key k : κ) (a : α) :
    get ((k, a) :: m) key = if k = key then some a else get m key := rfl

@[simp] theorem set_nil (key : κ) (v : α) : set [] key v = [(key, v)] := rfl

section
variable (m)

theorem set_cons (key k : κ) (v a : α) :
    set ((k, a) :: m) key v = if k = key then (k, v) :: m else (k, a) :: set m key v := rfl

@[simp] theorem get_set_self (key : κ) (v : α) : get (set m key v) key = some v := by
  induction m with
  | nil => simp [get_cons]
  | cons entry m ih =>
    obtain ⟨k, a⟩ := entry
    by_cases h : k = key
    · simp [set_cons, get_cons, h]
    · simp [set_cons, get_cons, h, ih]

theorem get_set_of_ne (v : α) (h : key' ≠ key) : get (set m key v) key' = get m key' := by
  induction m with
  | nil => simp [get_cons, h.symm]
  | cons entry m ih =>
    obtain ⟨k, a⟩ := entry
    by_cases hk : k = key
    · subst hk
      simp [set_cons, get_cons, h.symm]
    · simp [set_cons, get_cons, hk, ih]

@[simp] theorem get_delete_self (key : κ) : get (delete m key) key = none := by
  induction m with
  | nil => rfl
  | cons entry m ih =>
    obtain ⟨k, a⟩ := entry
    by_cases h : k = key
    · simpa [delete, h] using ih
    · simpa [delete, h, get_cons] using ih

theorem get_delete_of_ne (h : key' ≠ key) : get (delete m key) key' = get m key' := by
  induction m with
  | nil => rfl
  | cons entry m ih =>
    obtain ⟨k, a⟩ := entry
    by_cases hk : k = key
    · subst hk
      simpa [delete, get_cons, h.symm] using ih
    · by_cases hk' : k = key'
      · subst hk'
        simp [delete, get_cons, hk]
      · simpa [delete, get_cons, hk, hk'] using ih

end

theorem get_of_mem (hd : (m.map fst).Nodup) (hm : (key, v) ∈ m) : get m key = some v := by
  induction m with
  | nil => cases hm
  | cons entry m ih =>
    obtain ⟨k, a⟩ := entry
    obtain ⟨hn, hd⟩ := nodup_cons.mp hd
    rcases mem_cons.mp hm with hq | hm
    · cases hq
      simp [get_cons]
    · have he : k ≠ key := by
        rintro rfl
        exact hn (mem_map.mpr ⟨_, hm, rfl⟩)
      simpa [get_cons, he] using ih hd hm

theorem mem_keys_iff : key ∈ m.map fst ↔ ∃ v, get m key = some v := by
  induction m with
  | nil => simp
  | cons entry m ih =>
    obtain ⟨k, a⟩ := entry
    by_cases h : k = key
    · simp [get_cons, h]
    · simp only [map_cons, mem_cons, get_cons, h, if_false, ih]
      exact or_iff_right (Ne.symm h)

theorem keys_set (m : List (κ × α)) (key : κ) (v : α) :
    (set m key v).map fst = if key ∈ m.map fst then m.map fst else m.map fst ++ [key] := by
  induction m with
  | nil => simp
  | cons entry m ih =>
    obtain ⟨k, a⟩ := entry
    by_cases h : k = key
    · simp [set_cons, h]
    · have hn : ¬ key = k := fun he => h he.symm
      simp only [set_cons, h, if_false, map_cons, ih, mem_cons, hn, false_or]
      split_ifs <;> rfl

theorem mem_keys_set (m : List (κ × α)) (key : κ) (v : α) : key ∈ (set m key v).map fst := by
  induction m with
  | nil => simp
  | cons entry m ih =>
    obtain ⟨k, a⟩ := entry
    by_cases h : k = key
    · simp [set_cons, h]
    · simp only [set_cons, h, if_false, map_cons, mem_cons]
      exact .inr ih

theorem mem_keys_delete (h : key' ≠ key) (hm : key' ∈ m.map fst) :
    key' ∈ (delete m key).map fst := by
  obtain ⟨entry, he, rfl⟩ := mem_map.mp hm
  exact mem_map_of_mem (mem_filter.mpr ⟨he, by simpa using h⟩)

end InsertionMap
