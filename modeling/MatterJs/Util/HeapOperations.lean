import MatterJs.Util.HeapOrder
import Mathlib.Order.Antisymmetrization

/-!
# Runs of the heap

The heap against the set of the items that were added and not removed. A comparator that is a total
preorder compares the classes of equal items, which are in a linear order.
-/
namespace MatterJs.Util

open Function

inductive HeapOperation (T : Type)
  | add (item : T)
  | delete (item : T)
  | shift
  | clear

namespace Heap

variable {T : Type} [DecidableEq T]

def apply (compare : T → T → Int) (heap : Heap T) : HeapOperation T → Heap T
  | .add item => (heap.add compare item).1
  | .delete item => (heap.delete compare item).1
  | .shift => (heap.shift compare).1
  | .clear => heap.clear

/-- What is held after an operation. `shift` removes the item it returns, which is the first. -/
def heldAfter (heap : Heap T) (held : T → Bool) : HeapOperation T → T → Bool
  | .add item => update held item true
  | .delete item => update held item false
  | .shift =>
    match heap.first with
    | some item => update held item false
    | none => held
  | .clear => fun _ => false

def run (compare : T → T → Int) (operations : List (HeapOperation T)) : Heap T × (T → Bool) :=
  operations.foldl (fun s operation =>
    (s.1.apply compare operation, s.1.heldAfter s.2 operation)) ({}, fun _ => false)

/-- No left child is after its right sibling. -/
def SiblingsOrdered (compare : T → T → Int) (buffer : List T) : Prop :=
  ∀ i left right, buffer[leftChildOf i]? = some left → buffer[rightChildOf i]? = some right →
    compare left right ≤ 0

structure Sound {K : Type} [LinearOrder K] (key : T → K) (heap : Heap T) (held : T → Bool) :
    Prop where
  indexed : heap.Indexed
  ordered : Ordered key heap.buffer
  holds : ∀ item, item ∈ heap.buffer ↔ held item

variable {K : Type} [LinearOrder K] {key : T → K} {m : T → T → Int} {q : Heap T}
  {d : T → Bool} {i : Nat} {x : T}

omit [DecidableEq T] in
theorem sound_empty : Sound key ({} : Heap T) (fun _ => false) :=
  ⟨⟨List.nodup_nil, by simp⟩, fun _ _ a _ ha => by simp at ha, by simp⟩

section Compare

variable (hcompare : ∀ a b, m a b ≤ 0 ↔ key a ≤ key b)
include hcompare

section
variable (h : Sound key q d)
include h

theorem Sound.add (x : T) : Sound key (q.add m x).1 (update d x true) := by
  by_cases hm : x ∈ q.buffer
  · rw [add_of_mem h.indexed hm, update_eq_self_iff.mpr ((h.holds x).mp hm).symm]
    exact h
  · obtain ⟨hi, hp, -⟩ := add_of_notMem m h.indexed hm
    refine ⟨hi, add_ordered hcompare h.ordered x, fun o => ?_⟩
    rw [hp.mem_iff, List.mem_cons, h.holds, update_apply]
    split_ifs with ho <;> simp [ho]

theorem Sound.deleteAt (ht : q.buffer[i]? = some x) :
    Sound key (q.deleteAt m i).1 (update d x false) := by
  obtain ⟨hi, hp, -⟩ := deleteAt_spec m h.indexed ht
  refine ⟨hi, deleteAt_ordered hcompare (h.ordered.orderedBut i) ht, fun o => ?_⟩
  have hn := List.nodup_cons.mp (hp.nodup_iff.mpr h.indexed.nodup)
  have ho := (hp.mem_iff (a := o)).trans (h.holds o)
  rw [update_apply]
  split_ifs with hq
  · simpa [hq] using hn.1
  · simpa [hq] using ho

theorem Sound.apply (o : HeapOperation T) : Sound key (q.apply m o) (q.heldAfter d o) := by
  cases o with
  | add x => exact h.add hcompare x
  | delete x =>
    simp only [Heap.apply, delete, heldAfter]
    cases hp : q.positions x with
    | some i => exact h.deleteAt hcompare ((h.indexed.places x i).mp hp)
    | none =>
      have hm := h.indexed.notMem_iff.mp hp
      rw [h.holds, Bool.not_eq_true] at hm
      rw [update_eq_self_iff.mpr hm.symm]
      exact h
  | shift =>
    simp only [Heap.apply, shift, heldAfter]
    cases hf : q.first with
    | some x => exact h.deleteAt hcompare hf
    | none =>
      have hd : q.deleteAt m 0 = (q, []) := by
        rw [Heap.deleteAt, show q.buffer[0]? = none from hf]
      rw [hd]
      exact h
  | clear => exact sound_empty

end

theorem sound_run (o : List (HeapOperation T)) : Sound key (run m o).1 (run m o).2 := by
  unfold run
  generalize hs : (({}, fun _ => false) : Heap T × (T → Bool)) = s
  have h : Sound key s.1 s.2 := hs ▸ sound_empty
  clear hs
  induction o generalizing s with
  | nil => exact h
  | cons e o ih => exact ih _ (h.apply hcompare e)

variable [ToString T]

omit [DecidableEq T] in
/-- In a heap only the siblings can be found out of order. -/
theorem validateAt_eq_ok (h : Ordered key q.buffer) : validateAt m q.buffer i = .ok () ↔
    ∀ left right, q.buffer[leftChildOf i]? = some left → q.buffer[rightChildOf i]? =
    some right → m left right ≤ 0 := by
  have hle : ∀ {c : Nat} {a b : T}, c ≠ 0 → parentOf c = i → q.buffer[i]? = some a →
      q.buffer[c]? = some b → ¬ 0 < m a b := by
    intro c a b hc hp ha hb
    rw [Int.not_lt, hcompare]
    exact h c hc a b (hp ▸ ha) hb
  unfold validateAt
  cases hl : q.buffer[leftChildOf i]? with
  | none => split <;> simp_all
  | some left =>
    have hlt := (List.getElem?_eq_some_iff.mp hl).1
    obtain ⟨a, ha⟩ : ∃ a, q.buffer[i]? = some a :=
      ⟨_, List.getElem?_eq_getElem (by unfold leftChildOf at hlt; omega)⟩
    simp only [ha, if_neg (hle (Nat.succ_ne_zero _) (parentOf_leftChildOf i) ha hl)]
    cases hr : q.buffer[rightChildOf i]? with
    | none => simp
    | some right =>
      simp only [if_neg (hle (Nat.succ_ne_zero _) (parentOf_rightChildOf i) ha hr)]
      split_ifs with hs
      · simpa using hs
      · simpa using hs

end Compare

omit [DecidableEq T] in
theorem forM_eq_ok {l : List Nat} {f : Nat → Except String Unit} :
    l.forM f = .ok () ↔ ∀ i ∈ l, f i = .ok () := by
  induction l with
  | nil => simp [pure, Except.pure]
  | cons i l ih =>
    change (f i >>= fun _ => l.forM f) = .ok () ↔ _
    rw [List.forall_mem_cons, ← ih]
    cases hf : f i <;> simp [bind, Except.bind]

omit [DecidableEq T] in
/-- The classes of a total preorder are in a linear order. -/
theorem exists_key {m : T → T → Int} (ht : ∀ a b, m a b ≤ 0 ∨ m b a ≤ 0)
    (htr : ∀ a b c, m a b ≤ 0 → m b c ≤ 0 → m a c ≤ 0) :
    ∃ (K : Type) (_ : LinearOrder K) (key : T → K), ∀ a b, m a b ≤ 0 ↔ key a ≤ key b := by
  classical
  let _ : Preorder T :=
    { le a b := m a b ≤ 0, le_refl a := (ht a a).elim id id, le_trans := htr }
  have : Std.Total (α := T) (· ≤ ·) := ⟨ht⟩
  exact ⟨Antisymmetrization T (· ≤ ·), inferInstance, toAntisymmetrization (· ≤ ·),
    fun _ _ => toAntisymmetrization_le_toAntisymmetrization_iff.symm⟩

/-- The heap holds what was added and not removed, with every place recorded, and its first item is
not after any other. `validate` takes it exactly when no left child is after its right sibling. -/
theorem heap_is_kept [ToString T] (compare : T → T → Int)
    (htotal : ∀ a b, compare a b ≤ 0 ∨ compare b a ≤ 0)
    (htrans : ∀ a b c, compare a b ≤ 0 → compare b c ≤ 0 → compare a c ≤ 0)
    (operations : List (HeapOperation T)) (heap : Heap T) (held : T → Bool)
    (h : run compare operations = (heap, held)) :
    heap.buffer.Nodup ∧
      (∀ item, item ∈ heap.buffer ↔ held item = true) ∧
      (∀ item i, heap.positions item = some i ↔ heap.buffer[i]? = some item) ∧
      (∀ item, heap.first = some item → ∀ other ∈ heap.buffer, compare item other ≤ 0) ∧
      (heap.validate compare = .ok () ↔ SiblingsOrdered compare heap.buffer) := by
  obtain ⟨K, _, key, hcompare⟩ := exists_key htotal htrans
  have hs := sound_run hcompare operations
  rw [h] at hs
  refine ⟨hs.indexed.nodup, hs.holds, hs.indexed.places, fun item hf other ho => ?_, ?_⟩
  · exact (hcompare item other).mpr (hs.ordered.root_le hf ho)
  · rw [validate, forM_eq_ok]
    constructor
    · intro hv i left right hl hr
      have ht := (List.getElem?_eq_some_iff.mp hl).1
      have hi : i ∈ List.range heap.buffer.length := by
        rw [List.mem_range]
        unfold leftChildOf at ht
        omega
      exact (validateAt_eq_ok hcompare hs.ordered).mp (hv i hi) left right hl hr
    · exact fun hv i _ => (validateAt_eq_ok hcompare hs.ordered).mpr (hv i)

theorem heap_is_kept_deleted : ∃ heap held,
    run (fun a b : Int => a - b) [.add 5, .add 4, .add 2, .delete 4] = (heap, held) ∧
      heap.first = some 2 ∧ heap.validate (fun a b => a - b) = .ok () ∧
      ∀ item, item ∈ heap.buffer ↔ held item = true :=
  ⟨_, _, rfl, by decide, by decide, (heap_is_kept (fun a b : Int => a - b) (by omega) (by omega)
    [.add 5, .add 4, .add 2, .delete 4] _ _ rfl).2.1⟩

/-- The items 3 and 2 are siblings, in this order. -/
theorem validate_throws :
    (run (fun a b : Int => a - b) [.add 1, .add 3, .add 2]).1.validate (fun a b => a - b) =
      .error "Heap error: buffer #1 (3) is greater than right sibling #2 (2)" := by
  decide

end Heap

end MatterJs.Util
