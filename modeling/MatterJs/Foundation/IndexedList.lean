import Mathlib.Data.List.Nodup

/-! Facts about the entries of a list by their indexes. -/
namespace IndexedList

open List

variable {α : Type} {l : List α} {i j : Nat} {a b : α}

theorem countP_set {p : α → Bool} (b : α) (h : l[i]? = some a) :
    (l.set i b).countP p + (if p a then 1 else 0) = l.countP p + (if p b then 1 else 0) := by
  induction l generalizing i with
  | nil => cases h
  | cons c l ih =>
    cases i with
    | zero =>
      obtain rfl : c = a := by simpa using h
      simp only [set_cons_zero, countP_cons]
      omega
    | succ i =>
      have hs := ih (i := i) (by simpa using h)
      simp only [set_cons_succ, countP_cons]
      omega

theorem mem_concat_cases (h : b ∈ l ++ [a]) : b ∈ l ∨ b = a := by
  simpa using h

theorem getElem?_concat_cases (h : (l ++ [a])[i]? = some b) :
    l[i]? = some b ∨ i = l.length ∧ b = a := by
  rcases Nat.lt_trichotomy i l.length with hi | hi | hi
  · rw [List.getElem?_append_left hi] at h
    exact .inl h
  · subst hi
    rw [getElem?_concat_length] at h
    exact .inr ⟨rfl, (Option.some.inj h).symm⟩
  · rw [getElem?_append_right (Nat.le_of_lt hi), getElem?_eq_none (by simp; omega)] at h
    cases h

theorem getElem?_concat_left (h : l[i]? = some b) : (l ++ [a])[i]? = some b :=
  (List.getElem?_append_left (List.getElem?_eq_some_iff.mp h).1).trans h

theorem getElem?_set_cases (h : (l.set j a)[i]? = some b) :
    i = j ∧ b = a ∨ i ≠ j ∧ l[i]? = some b := by
  rw [List.getElem?_set] at h
  split_ifs at h with hi hl
  · exact .inl ⟨hi.symm, (Option.some.inj h).symm⟩
  · exact .inr ⟨Ne.symm hi, h⟩

theorem mem_set_self (h : l[i]? = some a) (b : α) : b ∈ l.set i b :=
  List.mem_of_getElem? (List.getElem?_set_self (List.getElem?_eq_some_iff.mp h).1)

theorem getElem?_concat_of_ne (h : b ≠ a) : (l ++ [a])[i]? = some b ↔ l[i]? = some b := by
  constructor
  · intro hi
    exact (getElem?_concat_cases hi).resolve_right (fun he => h he.2)
  · intro hi
    exact getElem?_concat_left hi

theorem getElem?_exchange (hi : l[i]? = some a) (hj : l[j]? = some b) (k : Nat) :
    ((l.set i b).set j a)[k]? = if k = j then some a else if k = i then some b else l[k]? := by
  have hli := (List.getElem?_eq_some_iff.mp hi).1
  have hl := (List.getElem?_eq_some_iff.mp hj).1
  simp only [List.getElem?_set, List.length_set]
  split_ifs with hjk hjk' hik hik' <;> first | rfl | omega

theorem perm_exchange [DecidableEq α] (hij : i ≠ j) (hi : l[i]? = some a) (hj : l[j]? = some b) :
    ((l.set i b).set j a).Perm l := by
  rw [perm_iff_count]
  intro c
  have hj' : (l.set i b)[j]? = some b := by rw [getElem?_set_ne hij, hj]
  have hf := countP_set (p := (· == c)) b hi
  have hs := countP_set (p := (· == c)) a hj'
  simp only [List.count]
  omega

theorem index_unique (hn : l.Nodup) (hi : l[i]? = some a) (hj : l[j]? = some a) : i = j := by
  obtain ⟨hli, hai⟩ := List.getElem?_eq_some_iff.mp hi
  obtain ⟨hl, ha⟩ := List.getElem?_eq_some_iff.mp hj
  exact (hn.getElem_inj_iff).mp (hai.trans ha.symm)

end IndexedList
