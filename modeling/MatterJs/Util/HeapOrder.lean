import Mathlib.Order.Lattice
import MatterJs.Util.Heap

/-!
# The order of the heap

No item comes before its parent, but for the place where an operation has just put another item.
-/
namespace MatterJs.Util.Heap

open List Option

variable {T K : Type} [LinearOrder K] {k : T → K} {bs : List T} {hole : Nat}

section

variable (k bs)

/-- The item at one index is not after the item at the other. -/
def InOrder (i j : Nat) : Prop :=
  ∀ a b, bs[i]? = some a → bs[j]? = some b → k a ≤ k b

def Ordered : Prop :=
  ∀ i, i ≠ 0 → InOrder k bs (parentOf i) i

/-- The order, leaving out the item at one index: its children are not before its parent. -/
structure OrderedBut (k : T → K) (bs : List T) (hole : Nat) : Prop where
  off : ∀ i, i ≠ 0 → i ≠ hole → parentOf i ≠ hole → InOrder k bs (parentOf i) i
  across : hole ≠ 0 → ∀ c, c ≠ 0 → parentOf c = hole → InOrder k bs (parentOf hole) c

/-- The item at an index is not before its parent. -/
def Above (hole : Nat) : Prop :=
  hole ≠ 0 → InOrder k bs (parentOf hole) hole

/-- The item at an index is not after its children. -/
def Below (hole : Nat) : Prop :=
  ∀ c, c ≠ 0 → parentOf c = hole → InOrder k bs hole c

end

theorem OrderedBut.ordered (h : OrderedBut k bs hole) (ha : Above k bs hole)
    (hb : Below k bs hole) : Ordered k bs := by
  intro i hi
  by_cases hh : i = hole
  · subst hh
    exact ha hi
  · by_cases hp : parentOf i = hole
    · rw [hp]
      exact hb i hi hp
    · exact h.off i hi hh hp

theorem Ordered.orderedBut (h : Ordered k bs) (hole : Nat) :
    OrderedBut k bs hole where
  off := fun i hi _ _ => h i hi
  across := by
    intro hh c hc hp a b ha hb
    subst hp
    cases ht : bs[parentOf c]? with
    | none =>
      -- A child is behind its parent in the buffer.
      have hle := List.getElem?_eq_none_iff.mp ht
      have hl := (List.getElem?_eq_some_iff.mp hb).1
      have hp := parentOf_lt hc
      omega
    | some it =>
      exact le_trans (h _ hh a it ha ht) (h c hc it b ht hb)

/-- The root is not after any item. -/
theorem Ordered.root_le (h : Ordered k bs) {r : T} (ht : bs[0]? = some r)
    {it : T} (hit : it ∈ bs) : k r ≤ k it := by
  obtain ⟨i, hi⟩ := getElem?_of_mem hit
  induction i using Nat.strongRecOn generalizing it with
  | ind i ih =>
    by_cases hz : i = 0
    · subst hz
      exact le_of_eq (congrArg k (mem_unique ht hi))
    · have hl := (List.getElem?_eq_some_iff.mp hi).1
      have hp := parentOf_lt hz
      obtain ⟨p, hg⟩ : ∃ p, bs[parentOf i]? = some p :=
        ⟨_, List.getElem?_eq_getElem (by omega)⟩
      exact le_trans (ih _ hp (mem_of_getElem? hg) hg) (h i hz _ _ hg hi)

variable [DecidableEq T] {m : T → T → Int} {q : Heap T} {n : Nat} {x p : T}

/-! ### Bubbling up -/

section
variable (h : OrderedBut k q.buffer n)
include h

/-- Once the item and its parent have changed places, what is below the item is not before that
parent. -/
theorem OrderedBut.siblings (hi : n ≠ 0) (ht : q.buffer[n]? = some x)
    (hp : q.buffer[parentOf n]? = some p) {c : Nat} (hc : c ≠ 0) (hh : parentOf c = parentOf n)
    {b : T} (hb : (q.swap n (parentOf n)).buffer[c]? = some b) : k p ≤ k b := by
  have hlt := parentOf_lt hi
  have hl := parentOf_lt hc
  rw [getElem?_swap ht hp, if_neg (by omega)] at hb
  split_ifs at hb with hb'
  · exact le_of_eq (congrArg k (Option.some.inj hb))
  · exact h.off c hc hb' (by omega) p b (hh ▸ hp) hb

/-- An item that is before its parent takes the place of the parent. -/
theorem OrderedBut.bubble (hn : n ≠ 0)
    (hit : q.buffer[n]? = some x) (hpr : q.buffer[parentOf n]? = some p) :
    OrderedBut k (q.swap n (parentOf n)).buffer (parentOf n) := by
  have hl := parentOf_lt hn
  have hg := getElem?_swap hit hpr
  constructor
  · intro i hi hh hp a b ha hb
    rw [hg, if_neg hp] at ha
    rw [hg, if_neg hh] at hb
    split_ifs at ha with ha'
    · -- The parent has come down to the children of the item.
      cases ha
      split_ifs at hb with hb'
      · rw [hb'] at ha'
        omega
      · exact h.across hn i hi ha' p b hpr hb
    · split_ifs at hb with hb'
      · rw [hb'] at hp
        exact absurd rfl hp
      · exact h.off i hi hb' ha' a b ha hb
  · intro ht c hc hch a b ha hb
    have hlt' := parentOf_lt ht
    rw [hg, if_neg (by omega), if_neg (by omega)] at ha
    have hu : k a ≤ k p :=
      h.off (parentOf n) ht (by omega) (by omega) a p ha hpr
    exact le_trans hu (h.siblings hn hit hpr hc hch hb)

/-- The item that moves up stays before its children. -/
theorem Below.bubble (hi : n ≠ 0) (ht : q.buffer[n]? = some x)
    (hp : q.buffer[parentOf n]? = some p) (hl : k x < k p) :
    Below k (q.swap n (parentOf n)).buffer (parentOf n) := by
  intro c hc hh a b ha hb
  rw [getElem?_swap ht hp, if_pos rfl] at ha
  cases ha
  exact le_trans (le_of_lt hl) (h.siblings hi ht hp hc hh hb)

end

/-! ### Sinking down -/

theorem child_cases {c : Nat} (hc : c ≠ 0) (hp : parentOf c = n) :
    c = leftChildOf n ∨ c = rightChildOf n := by
  unfold parentOf at hp
  unfold leftChildOf rightChildOf
  omega

theorem parentOf_leftChildOf (n : Nat) : parentOf (leftChildOf n) = n := by
  unfold parentOf leftChildOf
  omega

theorem parentOf_rightChildOf (n : Nat) : parentOf (rightChildOf n) = n := by
  unfold parentOf rightChildOf
  omega

/-- The least of the children takes the place of the item. -/
theorem OrderedBut.sink (h : OrderedBut k q.buffer n) (hab : Above k q.buffer n) {ci : Nat}
    {l : T} (ht : q.buffer[n]? = some x) (hl : q.buffer[ci]? = some l) (hch : ci ≠ 0)
    (hp : parentOf ci = n) (hbf : InOrder k q.buffer ci n)
    (hf : ∀ c, c ≠ 0 → parentOf c = n → InOrder k q.buffer ci c) :
    OrderedBut k (q.swap n ci).buffer ci ∧ Above k (q.swap n ci).buffer ci := by
  have hlt := parentOf_lt hch
  have hg := getElem?_swap ht hl
  refine ⟨⟨?_, ?_⟩, ?_⟩
  · intro i hi hh hph a b ha hb
    rw [hg, if_neg hph] at ha
    rw [hg, if_neg hh] at hb
    split_ifs at ha with ha'
    · cases ha
      split_ifs at hb with hb'
      · have := parentOf_lt hi
        omega
      · exact hf i hi ha' l b hl hb
    · split_ifs at hb with hb'
      · -- The least child is not before the parent of the item.
        cases hb
        subst hb'
        exact h.across hi ci hch hp a l ha hl
      · exact h.off i hi hb' ha' a b ha hb
  · intro _ c hc hc' a b ha hb
    have hlt' := parentOf_lt hc
    rw [hg, if_neg (by omega), if_pos hp] at ha
    cases ha
    rw [hg, if_neg (by omega), if_neg (by omega)] at hb
    exact h.off c hc (by omega) (by omega) l b (hc' ▸ hl) hb
  · intro _ a b ha hb
    rw [hg, if_neg (by omega), if_pos hp] at ha
    rw [hg, if_pos rfl] at hb
    rw [← Option.some.inj ha, ← Option.some.inj hb]
    exact hbf l x hl ht

/-! ### The loops and the operations -/

section Compare

variable (hcompare : ∀ a b, m a b ≤ 0 ↔ k a ≤ k b)
include hcompare

omit [DecidableEq T] in
theorem compare_pos (a b : T) : 0 < m a b ↔ k b < k a := by
  rw [← Int.not_le, hcompare, not_le]

theorem bubbleUp_order (f : Nat) (q : Heap T) (n : Nat) (hf : n ≤ f)
    (h : OrderedBut k q.buffer n) (hl : n < q.buffer.length) :
    OrderedBut k (bubbleUp m f q n).1.buffer (bubbleUp m f q n).2 ∧
    Above k (bubbleUp m f q n).1.buffer (bubbleUp m f q n).2 ∧ (Below k q.buffer n →
    Below k (bubbleUp m f q n).1.buffer (bubbleUp m f q n).2) := by
  induction f generalizing q n with
  | zero =>
    obtain rfl : n = 0 := Nat.le_zero.mp hf
    exact ⟨h, fun hz => absurd rfl hz, id⟩
  | succ f ih =>
    unfold bubbleUp
    split_ifs with hi
    · exact ⟨h, fun hn => absurd hi hn, id⟩
    · have hlt := parentOf_lt hi
      obtain ⟨x, ht⟩ : ∃ x, q.buffer[n]? = some x :=
        ⟨_, List.getElem?_eq_getElem hl⟩
      obtain ⟨p, hp⟩ : ∃ p, q.buffer[parentOf n]? = some p :=
        ⟨_, List.getElem?_eq_getElem (by omega)⟩
      simp only [ht, hp, hcompare]
      split_ifs with hs
      · refine ⟨h, ?_, id⟩
        intro _ a b ha hb
        rw [← mem_unique hp ha, ← mem_unique ht hb]
        exact hs
      · have hpr := perm_swap (Nat.ne_of_gt hlt) ht hp
        obtain ⟨hu, hab, hbl⟩ := ih (q.swap n (parentOf n))
          (parentOf n) (by omega) (h.bubble hi ht hp)
          (by rw [hpr.length_eq]; omega)
        exact ⟨hu, hab, fun _ => hbl (Below.bubble h hi ht hp (lt_of_not_ge hs))⟩

omit [DecidableEq T] in
/-- The loop ends where the item is not after its children. -/
theorem below_of_moveTo_eq_none (hmv : moveTo m bs n = none) : Below k bs n := by
  intro c hc hp a b ha hb
  unfold moveTo at hmv
  rcases child_cases hc hp with rfl | rfl
  · simp only [ha, hb, compare_pos hcompare] at hmv
    split at hmv
    · split_ifs at hmv with hst
      exact le_of_not_gt hst
    · split_ifs at hmv with hst
      exact le_of_not_gt hst
  · have hlt := (List.getElem?_eq_some_iff.mp hb).1
    obtain ⟨left, hlf⟩ : ∃ left, bs[leftChildOf n]? = some left :=
      ⟨_, List.getElem?_eq_getElem (Nat.lt_of_succ_lt hlt)⟩
    simp only [ha, hb, hlf, compare_pos hcompare] at hmv
    split_ifs at hmv
    rename_i hst
    exact le_of_not_gt hst

omit [DecidableEq T] in
/-- The loop goes on with the least of the children, which is before the item. -/
theorem moveTo_order {ch : Nat} (hit : bs[n]? = some x)
    (hmv : moveTo m bs n = some ch) : ch ≠ 0 ∧ parentOf ch = n ∧ InOrder k bs ch n ∧
      ∀ c, c ≠ 0 → parentOf c = n → InOrder k bs ch c := by
  unfold moveTo at hmv
  split at hmv
  · rename_i item' left hi' hlf
    obtain rfl : x = item' := mem_unique hit hi'
    simp only [compare_pos hcompare] at hmv
    have hch : ∀ l, bs[ch]? = some l → k l ≤ k left →
        (∀ r, bs[rightChildOf n]? = some r → k l ≤ k r) →
        ∀ c, c ≠ 0 → parentOf c = n → InOrder k bs ch c := by
      intro l hl hle hr c hc hp a b ha hb
      rw [← mem_unique hl ha]
      rcases child_cases hc hp with rfl | rfl
      · rw [← mem_unique hlf hb]
        exact hle
      · exact hr b hb
    have hbf : ∀ l, bs[ch]? = some l → k l ≤ k x → InOrder k bs ch n := by
      intro l hl hle a b ha hb
      rw [← mem_unique hl ha, ← mem_unique hit hb]
      exact hle
    split at hmv
    · rename_i r hr
      have hr' : ∀ l, k l ≤ k r →
          ∀ other, bs[rightChildOf n]? = some other → k l ≤ k other := by
        intro l hle other ho
        rw [← mem_unique hr ho]
        exact hle
      split_ifs at hmv with hlt hst hst
      · cases hmv
        exact ⟨Nat.succ_ne_zero _, parentOf_rightChildOf n, hbf r hr (le_of_lt (lt_trans hst hlt)),
          hch r hr (le_of_lt hst) (hr' r le_rfl)⟩
      · cases hmv
        exact ⟨Nat.succ_ne_zero _, parentOf_leftChildOf n, hbf left hlf (le_of_lt hlt),
          hch left hlf le_rfl (hr' left (le_of_not_gt hst))⟩
      · cases hmv
        exact ⟨Nat.succ_ne_zero _, parentOf_rightChildOf n, hbf r hr (le_of_lt hst),
          hch r hr (le_trans (le_of_lt hst) (le_of_not_gt hlt)) (hr' r le_rfl)⟩
    · rename_i hnn
      split_ifs at hmv with hlt
      cases hmv
      refine ⟨Nat.succ_ne_zero _, parentOf_leftChildOf n, hbf left hlf (le_of_lt hlt),
        hch left hlf le_rfl ?_⟩
      intro r hr
      rw [hnn] at hr
      cases hr
  · cases hmv

theorem sinkDown_order (f : Nat) (hfl : q.buffer.length ≤ f + n) (h : OrderedBut k q.buffer n)
    (hab : Above k q.buffer n) : Ordered k (sinkDown m f q n).buffer := by
  induction f generalizing q n with
  | zero =>
    refine h.ordered hab ?_
    intro c hc hp a b ha _
    have ht := (List.getElem?_eq_some_iff.mp ha).1
    omega
  | succ f ih =>
    unfold sinkDown
    split
    · rename_i i hm
      obtain ⟨-, ⟨x, hi⟩, least, hl⟩ := moveTo_eq_some hm
      obtain ⟨hh, hp, hb, hf⟩ := moveTo_order hcompare hi hm
      obtain ⟨hu, ha'⟩ :=
        h.sink hab hi hl hh hp hb hf
      have ht := parentOf_lt hh
      have hpr := perm_swap (by omega) hi hl
      exact ih (by rw [hpr.length_eq]; omega) hu ha'
    · rename_i hm
      exact h.ordered hab (below_of_moveTo_eq_none hcompare hm)

theorem add_ordered (h : Ordered k q.buffer) (x : T) : Ordered k (q.add m x).1.buffer := by
  unfold add
  split
  · exact h
  · have hu : OrderedBut k (q.buffer ++ [x]) q.buffer.length := by
      constructor
      · intro i hi hh _ a b ha hb
        have hlt := parentOf_lt hi
        have ht := (List.getElem?_eq_some_iff.mp hb).1
        rw [List.length_append, List.length_singleton] at ht
        rw [List.getElem?_append_left (by omega)] at ha hb
        exact h i hi a b ha hb
      · intro _ c hc hp a b _ hb
        have hlt := parentOf_lt hc
        have hl := (List.getElem?_eq_some_iff.mp hb).1
        rw [List.length_append, List.length_singleton] at hl
        omega
    have hbl : Below k (q.buffer ++ [x]) q.buffer.length := by
      intro c hc hp a b _ hb
      have hlt := parentOf_lt hc
      have hl := (List.getElem?_eq_some_iff.mp hb).1
      rw [List.length_append, List.length_singleton] at hl
      omega
    obtain ⟨hbut', ha', hb'⟩ := bubbleUp_order hcompare
      q.buffer.length { q with buffer := q.buffer ++ [x] } q.buffer.length
      (Nat.le_refl _) hu (by simp)
    exact hbut'.ordered ha' (hb' hbl)

/-- The item to be deleted may be out of order. -/
theorem deleteAt_ordered (h : OrderedBut k q.buffer n)
    (hit : q.buffer[n]? = some x) : Ordered k (q.deleteAt m n).1.buffer := by
  obtain ⟨f, l, hf, hs, hl⟩ := exists_concat hit
  -- The entries of the shorter buffer, but for the one at the index, were there before.
  have ho : ∀ {i : Nat} {a : T}, i < f.length → i ≠ n →
      ((q.buffer.set n l).take f.length)[i]? = some a → q.buffer[i]? = some a := by
    intro i a hi hne ha
    rw [getElem?_take_of_lt hi, getElem?_set_ne (Ne.symm hne)] at ha
    exact ha
  have hbn : ∀ {i : Nat} {a : T},
      ((q.buffer.set n l).take f.length)[i]? = some a → i < f.length := by
    intro i a ha
    have ht := (List.getElem?_eq_some_iff.mp ha).1
    rw [length_take] at ht
    omega
  simp only [deleteAt, hit, hs, hl]
  by_cases hn : f.length = 0
  · rw [if_pos hn]
    intro i _ a b ha _
    cases ha
  · rw [if_neg hn]
    by_cases hin : n < f.length
    · rw [if_pos hin]
      have hu : OrderedBut k ((q.buffer.set n l).take f.length) n := by
        constructor
        · intro i hi hh hp a b ha hb
          exact h.off i hi hh hp a b (ho (hbn ha) hp ha)
            (ho (hbn hb) hh hb)
        · intro hrt c hc hp a b ha hb
          have hltc := parentOf_lt hc
          have hltp := parentOf_lt hrt
          exact h.across hrt c hc hp a b (ho (hbn ha) (by omega) ha)
            (ho (hbn hb) (by omega) hb)
      obtain ⟨hb', ha', -⟩ := bubbleUp_order hcompare n
        { buffer := (q.buffer.set n l).take f.length
          positions := Function.update q.positions l (some n) } n
        (Nat.le_refl _) hu (by
          rw [length_take, length_set]
          omega)
      exact sinkDown_order hcompare _ (Nat.le_add_right ..) hb' ha'
    · rw [if_neg hin]
      intro i hi a b ha hb
      have ht := hbn hb
      have hltp := parentOf_lt hi
      exact h.off i hi (by omega) (by omega) a b (ho (hbn ha) (by omega) ha)
        (ho ht (by omega) hb)

/-! ### The first item -/

/-- An item that is not before the root does not get there. -/
theorem bubbleUp_place_ne_zero (f : Nat) (q : Heap T) (n : Nat) (hi : n ≠ 0)
    (ht : q.buffer[n]? = some x) {r : T} (hrt : q.buffer[0]? = some r)
    (hl : k r ≤ k x) : (bubbleUp m f q n).2 ≠ 0 := by
  induction f generalizing q n with
  | zero => exact hi
  | succ f ih =>
    unfold bubbleUp
    rw [if_neg hi]
    split
    · rename_i p item' hp hi'
      obtain rfl : x = item' := mem_unique ht hi'
      split_ifs with hs
      · exact hi
      · by_cases hz : parentOf n = 0
        · rw [hz] at hp
          rw [← mem_unique hrt hp, hcompare] at hs
          exact absurd hl hs
        · refine ih _ _ hz ?_ ?_
          · rw [getElem?_swap ht hp, if_pos rfl]
          · rw [getElem?_swap ht hp, if_neg (Ne.symm hz), if_neg (Ne.symm hi), hrt]
    · exact hi

theorem add_first {ro : T} (ht : q.buffer[0]? = some ro) (hle : k ro ≤ k x) :
    (q.add m x).1.first = some ro := by
  unfold add
  split
  · exact ht
  · have hl := (List.getElem?_eq_some_iff.mp ht).1
    have hr' : (q.buffer ++ [x])[0]? = some ro := by
      rw [List.getElem?_append_left hl, ht]
    have hp := bubbleUp_place_ne_zero hcompare q.buffer.length
      { q with buffer := q.buffer ++ [x] } q.buffer.length (Nat.ne_of_gt hl)
      getElem?_concat_length hr' hle
    exact ((bubbleUp_first _ _ _ _ (Nat.ne_of_gt hl)).resolve_left hp).trans hr'

theorem deleteAt_first (hin : n ≠ 0) (ht : q.buffer[n]? = some x) {ro : T}
    (hrt : q.buffer[0]? = some ro) (hle : ∀ i, i ≠ n → ∀ o, q.buffer[i]? = some o →
    k ro ≤ k o) : (q.deleteAt m n).1.first = some ro := by
  obtain ⟨f, last, hb, hs, hl⟩ := exists_concat ht
  have hlt := (List.getElem?_eq_some_iff.mp ht).1
  have hn : f.length ≠ 0 := by
    omega
  have hr' : ((q.buffer.set n last).take f.length)[0]? = some ro := by
    rw [getElem?_take_of_lt (Nat.pos_of_ne_zero hn), getElem?_set_ne hin, hrt]
  simp only [deleteAt, ht, hs, hl, if_neg hn]
  by_cases hi : n < f.length
  · rw [if_pos hi]
    have hpl : ((q.buffer.set n last).take f.length)[n]? = some last := by
      rw [getElem?_take_of_lt hi, getElem?_set_self hlt]
    have hy : k ro ≤ k last := by
      refine hle f.length (Nat.ne_of_gt hi) last ?_
      rw [hb, getElem?_concat_length]
    have hp := bubbleUp_place_ne_zero hcompare n
      { buffer := (q.buffer.set n last).take f.length
        positions := Function.update q.positions last (some n) } n hin hpl hr' hy
    refine Eq.trans (sinkDown_first _ _ _ _ hp) ?_
    exact ((bubbleUp_first _ _ _ _ hin).resolve_left hp).trans hr'
  · rw [if_neg hi]
    exact hr'

end Compare

end MatterJs.Util.Heap
