import MatterJs.Foundation.IndexedList
import Mathlib.Logic.Function.Basic

/-!
# The heap

`Heap` holds each item once, in an array that encodes the tree, with a map from the items to their
places. The operations give what is emitted on `firstChanged`.
-/
namespace MatterJs.Util

structure Heap (T : Type) where
  buffer : List T := []
  positions : T → Option Nat := fun _ => none

namespace Heap

variable {T : Type}

section

variable [DecidableEq T] (compare : T → T → Int) (heap : Heap T)

def first : Option T := heap.buffer[0]?

def leftChildOf (index : Nat) : Nat := 2 * index + 1

def rightChildOf (index : Nat) : Nat := 2 * index + 2

def parentOf (index : Nat) : Nat := (index - 1) / 2

def swap (index1 index2 : Nat) : Heap T :=
  match heap.buffer[index1]?, heap.buffer[index2]? with
  | some item1, some item2 =>
    { buffer := (heap.buffer.set index1 item2).set index2 item1
      positions := Function.update (Function.update heap.positions item2 (some index1))
        item1 (some index2) }
  | _, _ => heap

/-- The loop of `#bubbleUp`. The index gets smaller, so its own value is enough fuel. -/
def bubbleUp (compare : T → T → Int) : (fuel : Nat) → Heap T → (index : Nat) → Heap T × Nat
  | 0, heap, index => (heap, index)
  | fuel + 1, heap, index =>
    if index = 0 then (heap, index)
    else
      match heap.buffer[parentOf index]?, heap.buffer[index]? with
      | some parent, some item =>
        if compare parent item ≤ 0 then (heap, index)
        else bubbleUp compare fuel (heap.swap index (parentOf index)) (parentOf index)
      | _, _ => (heap, index)

/-- The index that `#sinkDown` goes on with: the least of the item and its children, the item and
the left child before the right one where they are equal. -/
def moveTo (buffer : List T) (index : Nat) : Option Nat :=
  match buffer[index]?, buffer[leftChildOf index]? with
  | some item, some left =>
    let leftFirst := 0 < compare item left
    match buffer[rightChildOf index]? with
    | some right =>
      if 0 < compare (if leftFirst then left else item) right then some (rightChildOf index)
      else if leftFirst then some (leftChildOf index) else none
    | none => if leftFirst then some (leftChildOf index) else none
  | _, _ => none

/-- The loop of `#sinkDown`. The index gets larger, so the length is enough fuel. -/
def sinkDown (compare : T → T → Int) : (fuel : Nat) → Heap T → (index : Nat) → Heap T
  | 0, heap, _ => heap
  | fuel + 1, heap, index =>
    match moveTo compare heap.buffer index with
    | some child => sinkDown compare fuel (heap.swap index child) child
    | none => heap

/-- What `firstChanged` emits where the code tests for the index zero. -/
def emitted (index : Nat) : List (Option T) :=
  if index = 0 then [heap.first] else []

def setPosition (item : T) (index : Option Nat) : Heap T :=
  { heap with positions := Function.update heap.positions item index }

def add (item : T) : Heap T × List (Option T) :=
  match heap.positions item with
  | some _ => (heap, [])
  | none =>
    let length := heap.buffer.length
    let (heap, index) := bubbleUp compare length
      { heap with buffer := heap.buffer ++ [item] } length
    (heap.setPosition item (some index), heap.emitted index)

def deleteAt (index : Nat) : Heap T × List (Option T) :=
  match heap.buffer[index]?, heap.buffer.getLast? with
  | some item, some last =>
    let lastIndex := heap.buffer.length - 1
    if lastIndex = 0 then
      let heap := ({ heap with buffer := [] } : Heap T).setPosition item none
      (heap, heap.emitted index)
    else
      let heap : Heap T :=
        { buffer := (heap.buffer.set index last).take lastIndex
          positions := Function.update heap.positions last (some index) }
      if index < lastIndex then
        let (heap, place) := bubbleUp compare index heap index
        let bubbled := if index = 0 then [] else heap.emitted place
        let heap := (sinkDown compare heap.buffer.length heap place).setPosition item none
        (heap, bubbled ++ heap.emitted place)
      else (heap.setPosition item none, heap.emitted index)
  | _, _ => (heap, [])

def delete (item : T) : Heap T × List (Option T) :=
  match heap.positions item with
  | some index => heap.deleteAt compare index
  | none => (heap, [])

def shift : Heap T × List (Option T) :=
  heap.deleteAt compare 0

def clear (_ : Heap T) : Heap T := {}

/-- One round of `validate`. -/
def validateAt [ToString T] (buffer : List T) (i : Nat) : Except String Unit :=
  match buffer[i]?, buffer[leftChildOf i]? with
  | some item, some left =>
    let leftChild := leftChildOf i
    if 0 < compare item left then
      .error s!"Heap error: buffer #{i} ({item}) is greater than left child #{leftChild} ({left})"
    else
      match buffer[rightChildOf i]? with
      | some right =>
        let rightChild := rightChildOf i
        if 0 < compare item right then
          .error (s!"Heap error: buffer #{i} ({item}) is greater than right child " ++
            s!"#{rightChild} ({right})")
        else if 0 < compare left right then
          .error (s!"Heap error: buffer #{leftChild} ({left}) is greater than right sibling " ++
            s!"#{rightChild} ({right})")
        else .ok ()
      | none => .ok ()
  | _, _ => .ok ()

def validate [ToString T] : Except String Unit :=
  (List.range heap.buffer.length).forM (validateAt compare heap.buffer)

end

/-! ### Contents and places -/

section Contents

open IndexedList List Function

variable {m : T → T → Int} {q : Heap T} {n p : Nat} {x x1 x2 : T} {i1 i : Nat}

/-- The items other than one have their places recorded. -/
def IndexedOff (q : Heap T) (x : T) : Prop :=
  ∀ other, other ≠ x → ∀ i, q.positions other = some i ↔ q.buffer[i]? = some other

/-- Every item is there once, with its place recorded. -/
structure Indexed (q : Heap T) : Prop where
  nodup : q.buffer.Nodup
  places : ∀ x i, q.positions x = some i ↔ q.buffer[i]? = some x

/-- What the loops keep: the contents, and the places of the items other than one. -/
structure Rearranged (q heap' : Heap T) : Prop where
  perm : heap'.buffer.Perm q.buffer
  indexedOff : ∀ x, q.IndexedOff x → heap'.IndexedOff x

theorem Rearranged.refl (q : Heap T) : Rearranged q q := ⟨.refl _, fun _ => id⟩

theorem Rearranged.trans {he1 he2 he3 : Heap T} (h12 : Rearranged he1 he2)
    (h23 : Rearranged he2 he3) : Rearranged he1 he3 :=
  ⟨h23.perm.trans h12.perm, fun x h => h23.indexedOff x (h12.indexedOff x h)⟩

theorem moveTo_eq_some {b : List T} {c : Nat} (h : moveTo m b n = some c) : (c = leftChildOf n ∨
    c = rightChildOf n) ∧ (∃ x, b[n]? = some x) ∧ ∃ other, b[c]? = some other := by
  unfold moveTo at h
  split at h
  · rename_i x left hi hl
    simp only at h
    split at h
    · rename_i right hr
      split_ifs at h
      · cases h
        exact ⟨.inr rfl, ⟨x, hi⟩, right, hr⟩
      · cases h
        exact ⟨.inl rfl, ⟨x, hi⟩, left, hl⟩
      · cases h
        exact ⟨.inr rfl, ⟨x, hi⟩, right, hr⟩
    · split_ifs at h
      cases h
      exact ⟨.inl rfl, ⟨x, hi⟩, left, hl⟩
  · cases h

theorem Indexed.index_of_mem (h : q.Indexed) (hm : x ∈ q.buffer) :
    ∃ i, q.positions x = some i := by
  obtain ⟨i, hi⟩ := getElem?_of_mem hm
  exact ⟨i, (h.places x i).mpr hi⟩

theorem Indexed.notMem_iff (h : q.Indexed) : q.positions x = none ↔ x ∉ q.buffer := by
  constructor
  · intro hn hm
    obtain ⟨i, hi⟩ := h.index_of_mem hm
    rw [hn] at hi
    cases hi
  · intro hm
    cases hi : q.positions x with
    | none => rfl
    | some i => exact absurd (mem_of_getElem? ((h.places x i).mp hi)) hm

/-- What an operation emits: the new first item is among it, if it is another one. -/
def Announced (q heap' : Heap T) (emitted : List (Option T)) : Prop :=
  heap'.first ∈ emitted ∨ heap'.first = q.first

theorem Announced.of_place {he' : Heap T} {e : List (Option T)} {p : Nat}
    (h : p = 0 ∨ he'.first = q.first) : Announced q he' (e ++ he'.emitted p) := by
  rcases h with rfl | h
  · exact .inl (mem_append_right _ (mem_singleton_self _))
  · exact .inr h

theorem exists_concat (h : q.buffer[n]? = some x) : ∃ i l, q.buffer = i ++ [l] ∧
    q.buffer.getLast? = some l ∧ q.buffer.length - 1 = i.length := by
  rcases eq_nil_or_concat q.buffer with hn | ⟨i, l, hc⟩
  · rw [hn] at h
    cases h
  · rw [concat_eq_append] at hc
    exact ⟨i, l, hc, by simp [hc], by simp [hc]⟩

variable [DecidableEq T]

theorem buffer_swap (h1 : q.buffer[i1]? = some x1) (h2 : q.buffer[i]? = some x2) :
    q.swap i1 i =
      { buffer := (q.buffer.set i1 x2).set i x1
        positions := Function.update (Function.update q.positions x2 (some i1))
          x1 (some i) } := by
  simp [swap, h1, h2]

theorem getElem?_swap {i1 i : Nat} (h1 : q.buffer[i1]? = some x1)
    (h2 : q.buffer[i]? = some x2) (k : Nat) : (q.swap i1 i).buffer[k]? =
      if k = i then some x1 else if k = i1 then some x2 else q.buffer[k]? := by
  rw [buffer_swap h1 h2]
  exact getElem?_exchange h1 h2 k

theorem perm_swap (hn : i1 ≠ i) (h1 : q.buffer[i1]? = some x1)
    (h2 : q.buffer[i]? = some x2) : (q.swap i1 i).buffer.Perm q.buffer := by
  rw [buffer_swap h1 h2]
  exact perm_exchange hn h1 h2

theorem IndexedOff.swap (h : q.IndexedOff x) (hn : q.buffer.Nodup)
    {index1 index2 : Nat} (h1 : q.buffer[index1]? = some x1)
    (h2 : q.buffer[index2]? = some x2) : (q.swap index1 index2).IndexedOff x := by
  intro other ho i
  rw [getElem?_swap h1 h2, buffer_swap h1 h2]
  simp only
  by_cases ht : other = x1
  · subst ht
    rw [Function.update_self]
    constructor
    · intro hi
      rw [if_pos (Option.some.inj hi).symm]
    · intro hi
      split_ifs at hi with hi2 hi1
      · rw [hi2]
      · subst hi1
        rw [Option.some.inj hi] at h2
        rw [index_unique hn h1 h2]
      · exact absurd (index_unique hn hi h1) hi1
  · rw [update_of_ne ht]
    by_cases hit2 : other = x2
    · subst hit2
      rw [Function.update_self]
      constructor
      · intro hi
        cases hi
        have he : index1 ≠ index2 := by
          rintro rfl
          exact ht (Option.mem_unique h2 h1)
        rw [if_neg he, if_pos rfl]
      · intro hi
        split_ifs at hi with hi2 hi1
        · exact absurd (Option.some.inj hi).symm ht
        · rw [hi1]
        · exact absurd (index_unique hn hi h2) hi2
    · rw [update_of_ne hit2, h other ho]
      constructor
      · intro hi
        have hi2 : i ≠ index2 := by
          rintro rfl
          exact hit2 (Option.mem_unique hi h2)
        have hi1 : i ≠ index1 := by
          rintro rfl
          exact ht (Option.mem_unique hi h1)
        rw [if_neg hi2, if_neg hi1, hi]
      · intro hi
        split_ifs at hi with hi2 hi1
        · exact absurd (Option.some.inj hi).symm ht
        · exact absurd (Option.some.inj hi).symm hit2
        · exact hi

theorem rearranged_swap (hd : q.buffer.Nodup) (hn : i1 ≠ i) (h1 : q.buffer[i1]? = some x1)
    (h2 : q.buffer[i]? = some x2) : Rearranged q (q.swap i1 i) :=
  ⟨perm_swap hn h1 h2, fun _ h => h.swap hd h1 h2⟩

theorem parentOf_lt (h : n ≠ 0) : parentOf n < n := by
  unfold parentOf
  omega

/-- The item that bubbles up is at the index returned. -/
theorem bubbleUp_rearranged (m : T → T → Int) (f : Nat) (q : Heap T) (n : Nat)
    (hn : q.buffer.Nodup) (hi : q.buffer[n]? = some x) : Rearranged q (bubbleUp m f q n).1 ∧
      (bubbleUp m f q n).1.buffer[(bubbleUp m f q n).2]? = some x := by
  induction f generalizing q n with
  | zero => exact ⟨.refl _, hi⟩
  | succ f ih =>
    unfold bubbleUp
    split_ifs with hz
    · exact ⟨.refl _, hi⟩
    · split
      · rename_i p item' hp hi'
        split_ifs
        · exact ⟨.refl _, hi⟩
        · have he : n ≠ parentOf n := Nat.ne_of_gt (parentOf_lt hz)
          have hs := rearranged_swap hn he hi hp
          have hm : (q.swap n (parentOf n)).buffer[parentOf n]? = some x := by
            rw [getElem?_swap hi hp, if_pos rfl]
          obtain ⟨hrs, hl⟩ := ih _ _ (hs.perm.nodup_iff.mpr hn) hm
          exact ⟨hs.trans hrs, hl⟩
      · exact ⟨.refl _, hi⟩

section
variable (m)

theorem sinkDown_rearranged (f : Nat) (q : Heap T) (n : Nat)
    (hn : q.buffer.Nodup) : Rearranged q (sinkDown m f q n) := by
  induction f generalizing q n with
  | zero => exact .refl _
  | succ f ih =>
    unfold sinkDown
    split
    · rename_i child hm
      obtain ⟨hc, ⟨x1, h1⟩, x2, h2⟩ := moveTo_eq_some hm
      have he : n ≠ child := by
        rcases hc with rfl | rfl
        · unfold leftChildOf
          omega
        · unfold rightChildOf
          omega
      have hs := rearranged_swap hn he h1 h2
      exact hs.trans (ih _ _ (hs.perm.nodup_iff.mpr hn))
    · exact .refl _

/-- The root stays as long as the item does not get there. -/
theorem bubbleUp_first (f : Nat) (q : Heap T) (n : Nat)
    (hi : n ≠ 0) : (bubbleUp m f q n).2 = 0 ∨ (bubbleUp m f q n).1.first = q.first := by
  induction f generalizing q n with
  | zero => exact .inr rfl
  | succ f ih =>
    unfold bubbleUp
    rw [if_neg hi]
    split
    · rename_i p x hp hit
      split_ifs
      · exact .inr rfl
      · by_cases ht : parentOf n = 0
        · -- The item is at the root, and the loop ends there.
          rw [ht]
          left
          cases f with
          | zero => rfl
          | succ f => rw [bubbleUp, if_pos rfl]
        · refine (ih _ _ ht).imp_right (fun hf => hf.trans ?_)
          rw [first, getElem?_swap hit hp, if_neg (Ne.symm ht), if_neg (Ne.symm hi), first]
    · exact .inr rfl

theorem sinkDown_first (f : Nat) (q : Heap T) (n : Nat)
    (hi : n ≠ 0) : (sinkDown m f q n).first = q.first := by
  induction f generalizing q n with
  | zero => rfl
  | succ f ih =>
    unfold sinkDown
    split
    · rename_i c hm
      obtain ⟨hc, ⟨x1, h1⟩, x2, h2⟩ := moveTo_eq_some hm
      have hc0 : c ≠ 0 := by
        rcases hc with rfl | rfl
        · exact Nat.succ_ne_zero _
        · exact Nat.succ_ne_zero _
      rw [ih _ _ hc0, first, getElem?_swap h1 h2, if_neg (Ne.symm hc0), if_neg (Ne.symm hi), first]
    · rfl

/-- An item that was put at an index goes up or down from there. -/
theorem settle_spec (q : Heap T) (hn : q.buffer.Nodup)
    (ht : q.buffer[n]? = some x) :
    Rearranged q (sinkDown m (bubbleUp m n q n).1.buffer.length
        (bubbleUp m n q n).1 (bubbleUp m n q n).2) ∧
      ((bubbleUp m n q n).2 = 0 ∨ n ≠ 0 ∧ (sinkDown m (bubbleUp m n q n).1.buffer.length
          (bubbleUp m n q n).1 (bubbleUp m n q n).2).first = q.first) := by
  have hu := (bubbleUp_rearranged m n q n hn ht).1
  refine ⟨hu.trans (sinkDown_rearranged _ _ _ _ (hu.perm.nodup_iff.mpr hn)), ?_⟩
  by_cases hi : n = 0
  · subst hi
    exact .inl rfl
  · by_cases hp : (bubbleUp m n q n).2 = 0
    · exact .inl hp
    · exact .inr ⟨hi, (sinkDown_first _ _ _ _ hp).trans
        ((bubbleUp_first _ _ _ _ hi).resolve_left hp)⟩

end

/-- The recorded place of the item that was left out is set right. -/
theorem IndexedOff.setPosition (h : q.IndexedOff x) (hn : q.buffer.Nodup) {p : Option Nat}
    (hp : ∀ i, p = some i ↔ q.buffer[i]? = some x) : (q.setPosition x p).Indexed := by
  refine ⟨hn, ?_⟩
  intro other i
  simp only [Heap.setPosition]
  by_cases ho : other = x
  · subst ho
    rw [Function.update_self]
    exact hp i
  · rw [update_of_ne ho]
    exact h other ho i

theorem add_of_mem (h : q.Indexed) (hm : x ∈ q.buffer) : q.add m x = (q, []) := by
  obtain ⟨i, hi⟩ := h.index_of_mem hm
  simp [add, hi]

theorem add_of_notMem (m : T → T → Int) (h : q.Indexed) (hm : x ∉ q.buffer) :
    (q.add m x).1.Indexed ∧ (q.add m x).1.buffer.Perm (x :: q.buffer) ∧
      Announced q (q.add m x).1 (q.add m x).2 := by
  simp only [add, h.notMem_iff.mpr hm]
  have hpr : (q.buffer ++ [x]).Perm (x :: q.buffer) := perm_append_singleton ..
  have hn : (q.buffer ++ [x]).Nodup :=
    hpr.nodup_iff.mpr (nodup_cons.mpr ⟨hm, h.nodup⟩)
  have hoff : IndexedOff { q with buffer := q.buffer ++ [x] } x := by
    intro other ho i
    rw [h.places]
    exact (getElem?_concat_of_ne ho).symm
  obtain ⟨hs, hp⟩ := bubbleUp_rearranged m q.buffer.length
    { q with buffer := q.buffer ++ [x] } q.buffer.length hn
    getElem?_concat_length
  have hf := bubbleUp_first m q.buffer.length
    { q with buffer := q.buffer ++ [x] } q.buffer.length
  generalize bubbleUp m q.buffer.length { q with buffer := q.buffer ++ [x] }
    q.buffer.length = result at hs hp hf
  have hn' := hs.perm.nodup_iff.mpr hn
  refine ⟨(hs.indexedOff x hoff).setPosition hn' ?_, hs.perm.trans hpr, ?_⟩
  · intro i
    constructor
    · intro hi
      rw [← Option.some.inj hi]
      exact hp
    · intro hi
      rw [index_unique hn' hp hi]
  · unfold Announced emitted
    split_ifs with ht
    · exact .inl (mem_singleton_self _)
    · right
      by_cases he : q.buffer.length = 0
      · rw [List.length_eq_zero_iff] at he
        have hl := (List.getElem?_eq_some_iff.mp hp).1
        rw [hs.perm.length_eq, he] at hl
        exact absurd (Nat.lt_one_iff.mp hl) ht
      · refine ((hf he).resolve_left ht).trans ?_
        simp only [first]
        rw [getElem?_append_left (Nat.pos_of_ne_zero he)]

/-- The last item takes the place of the item that is deleted. -/
theorem Indexed.replace (h : q.Indexed) {b : List T} {l : T}
    (hb : q.buffer = b ++ [l]) (hin : n < b.length) (ht : q.buffer[n]? = some x) :
    (x :: b.set n l).Perm q.buffer ∧
      IndexedOff { buffer := b.set n l
                   positions := Function.update q.positions l (some n) } x := by
  have hn := h.nodup
  rw [hb] at ht hn
  rw [getElem?_append_left hin] at ht
  have hl : l ∉ b :=
    (nodup_cons.mp ((perm_append_singleton l b).nodup_iff.mp hn)).1
  constructor
  · rw [hb]
    refine List.Perm.trans ?_ (perm_append_singleton l b).symm
    rw [perm_iff_count]
    intro c
    have hs := countP_set (p := (· == c)) l ht
    simp only [List.count, countP_cons]
    omega
  · intro other ho i
    simp only
    by_cases ho' : other = l
    · subst ho'
      rw [Function.update_self, getElem?_set]
      split_ifs with hi
      · subst hi
        simp
      · constructor
        · intro he
          exact absurd (Option.some.inj he) hi
        · intro he
          exact absurd (mem_of_getElem? he) hl
    · rw [update_of_ne ho', h.places, hb, getElem?_concat_of_ne ho', getElem?_set]
      split_ifs with hi
      · subst hi
        rw [ht]
        constructor
        · intro he
          exact absurd (Option.some.inj he).symm ho
        · intro he
          exact absurd (Option.some.inj he).symm ho'
      · exact Iff.rfl

theorem deleteAt_spec (m : T → T → Int) (h : q.Indexed) (hit : q.buffer[n]? = some x) :
    (q.deleteAt m n).1.Indexed ∧ (x :: (q.deleteAt m n).1.buffer).Perm q.buffer ∧
      Announced q (q.deleteAt m n).1 (q.deleteAt m n).2 := by
  have hlt := (List.getElem?_eq_some_iff.mp hit).1
  obtain ⟨init, la, hb, hls, hl⟩ := exists_concat hit
  have hnn : ∀ {b : List T}, (x :: b).Nodup →
      ∀ i, (none : Option Nat) = some i ↔ b[i]? = some x := by
    intro b hd i
    constructor
    · intro he
      cases he
    · intro hi
      exact absurd (mem_of_getElem? hi) (nodup_cons.mp hd).1
  simp only [deleteAt, hit, hls, hl]
  by_cases hn : init.length = 0
  · -- The item is the only one.
    rw [if_pos hn]
    rw [List.length_eq_zero_iff] at hn
    rw [hb, hn] at hlt hit
    obtain rfl : n = 0 := Nat.lt_one_iff.mp hlt
    obtain rfl : la = x := Option.some.inj hit
    refine ⟨?_, ?_, .inl (mem_singleton_self _)⟩
    · refine IndexedOff.setPosition ?_ nodup_nil (by simp)
      intro other ho i
      rw [h.places, hb, hn]
      cases i with
      | zero => simpa using Ne.symm ho
      | succ i => simp
    · rw [hb, hn]
      exact .refl _
  · rw [if_neg hn]
    by_cases hin : n < init.length
    · rw [if_pos hin]
      obtain ⟨hpr, hoff⟩ := h.replace hb hin hit
      have ht : (q.buffer.set n la).take init.length = init.set n la := by
        rw [hb, set_append_left _ _ hin, take_left' (length_set ..)]
      rw [ht]
      have hd : (x :: init.set n la).Nodup := hpr.nodup_iff.mpr h.nodup
      have hp : (init.set n la)[n]? = some la := getElem?_set_self hin
      obtain ⟨hs, hf⟩ := settle_spec m
        { buffer := init.set n la
          positions := Function.update q.positions la (some n) }
        (nodup_cons.mp hd).2 hp
      have hfn := (hs.perm.cons x).trans hpr
      have hn' := hfn.nodup_iff.mpr h.nodup
      refine ⟨(hs.indexedOff x hoff).setPosition (nodup_cons.mp hn').2
        (hnn hn'), hfn, .of_place ?_⟩
      refine hf.imp_right (fun ⟨hi0, hf⟩ => Eq.trans hf ?_)
      simp only [first]
      rw [getElem?_set_ne hi0, hb, getElem?_append_left (Nat.pos_of_ne_zero hn)]
    · -- The item is the last one.
      rw [if_neg hin]
      have he : n = init.length := by
        omega
      subst he
      rw [hb, getElem?_concat_length] at hit
      obtain rfl : la = x := Option.some.inj hit
      have ht : (q.buffer.set init.length la).take init.length = init := by
        rw [hb]
        simp
      rw [ht]
      have hpr : (la :: init).Perm q.buffer := by
        rw [hb]
        exact (perm_append_singleton la init).symm
      have hd := hpr.nodup_iff.mpr h.nodup
      refine ⟨?_, hpr, .inr ?_⟩
      · refine IndexedOff.setPosition ?_ (nodup_cons.mp hd).2 (hnn hd)
        intro other ho i
        simp only
        rw [update_of_ne ho, h.places, hb]
        exact getElem?_concat_of_ne ho
      · simp only [first, Heap.setPosition]
        rw [hb, getElem?_append_left (Nat.pos_of_ne_zero hn)]

end Contents

end Heap

end MatterJs.Util
