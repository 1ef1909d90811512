import Mathlib.Data.List.Nodup
import Mathlib.Logic.Function.Basic

/-! Maps that are written from a list of entries, and lists whose entries have a key. -/
namespace EntryMap

open List Function

variable {α κ β : Type}

section Maps

variable (key : α → κ) (value : α → β)

/-- The map has the entries of the list and no others. -/
def Represents (m : κ → Option β) (entries : List α) : Prop :=
  ∀ k v, m k = some v ↔ ∃ a ∈ entries, key a = k ∧ value a = v

variable {key value} {m : κ → Option β} {es : List α} {a : α} {k : κ}

theorem represents_nil : Represents key value (fun _ => none) [] := by
  intro k v
  simp

theorem Represents.eq_none (h : Represents key value m []) : m = fun _ => none := by
  funext k
  cases hk : m k with
  | none => rfl
  | some v =>
    obtain ⟨a, ha, -⟩ := (h k v).mp hk
    cases ha

/-- Only the entries matter, not their order. -/
theorem Represents.congr {entries' : List α} (h : Represents key value m es)
    (heq : ∀ k v, (∃ a ∈ es, key a = k ∧ value a = v) ↔ ∃ a ∈ entries', key a = k ∧ value a = v) :
    Represents key value m entries' :=
  fun k v => (h k v).trans (heq k v)

variable [DecidableEq κ]

variable (key value) in
def setAll (m : κ → Option β) (entries : List α) : κ → Option β :=
  entries.foldl (fun m a => update m (key a) (some (value a))) m

theorem setAll_of_forall_ne (h : ∀ a ∈ es, key a ≠ k) : setAll key value m es k = m k := by
  induction es generalizing m with
  | nil => rfl
  | cons b es ih =>
    have hb : k ≠ key b := (h b mem_cons_self).symm
    calc setAll key value m (b :: es) k
        = update m (key b) (some (value b)) k :=
          ih (fun a ha => h a (mem_cons_of_mem b ha))
      _ = m k := update_of_ne hb _ _

theorem setAll_of_mem (hn : (es.map key).Nodup) (ha : a ∈ es) :
    setAll key value m es (key a) = some (value a) := by
  induction es generalizing m with
  | nil => cases ha
  | cons b es ih =>
    obtain ⟨hf, hn⟩ := nodup_cons.mp hn
    rcases mem_cons.mp ha with rfl | hm
    · have hne : ∀ c ∈ es, key c ≠ key a := by
        intro c hc he
        exact hf (mem_map.mpr ⟨c, hc, he⟩)
      calc setAll key value m (a :: es) (key a)
          = update m (key a) (some (value a)) (key a) := setAll_of_forall_ne hne
        _ = some (value a) := update_self _ _ _
    · exact ih hn hm

variable (key value) in
/-- Maps that are written from entries with different keys are those of the entries. -/
theorem represents_setAll (hnd : (es.map key).Nodup) :
    Represents key value (setAll key value (fun _ => none) es) es := by
  intro k v
  by_cases hk : ∃ a ∈ es, key a = k
  · obtain ⟨a, ha, rfl⟩ := hk
    rw [setAll_of_mem hnd ha]
    constructor
    · intro hv
      exact ⟨a, ha, rfl, Option.some.inj hv⟩
    · rintro ⟨b, hb, hkey, rfl⟩
      rw [inj_on_of_nodup_map hnd hb ha hkey]
  · have hne : ∀ a ∈ es, key a ≠ k := fun a ha hkey => hk ⟨a, ha, hkey⟩
    rw [setAll_of_forall_ne hne]
    constructor
    · intro hv
      cases hv
    · rintro ⟨a, ha, hkey, -⟩
      exact absurd hkey (hne a ha)

variable (key value) in
/-- The keys that are not among the entries are removed afterwards. -/
theorem setAll_restrict (m : κ → Option β) (hnd : (es.map key).Nodup) (k : κ) :
    (if es.any (fun a => key a == k) then setAll key value m es k else none) =
      setAll key value (fun _ => none) es k := by
  by_cases hk : ∃ a ∈ es, key a = k
  · obtain ⟨a, ha, rfl⟩ := hk
    have hany : es.any (fun b => key b == key a) :=
      any_eq_true.mpr ⟨a, ha, by simp⟩
    rw [if_pos hany, setAll_of_mem hnd ha, setAll_of_mem hnd ha]
  · have hne : ∀ a ∈ es, key a ≠ k := fun a ha hkey => hk ⟨a, ha, hkey⟩
    have hany : ¬ es.any (fun a => key a == k) := by
      intro hany
      obtain ⟨a, ha, hkey⟩ := any_eq_true.mp hany
      exact hne a ha (by simpa using hkey)
    rw [if_neg hany, setAll_of_forall_ne hne]

/-- An entry is added, or replaces the one with its key. -/
theorem Represents.set {et : List α} (h : Represents key value m es)
    (hm : ∀ b, b ∈ et ↔ (b ∈ es ∧ key b ≠ key a) ∨ b = a) :
    Represents key value (update m (key a) (some (value a))) et := by
  intro k v
  by_cases hk : k = key a
  · subst hk
    rw [update_self]
    constructor
    · intro hv
      exact ⟨a, (hm a).mpr (.inr rfl), rfl, Option.some.inj hv⟩
    · rintro ⟨b, hb, he, rfl⟩
      rcases (hm b).mp hb with ⟨-, hn⟩ | rfl
      · exact absurd he hn
      · rfl
  · rw [update_of_ne hk, h k v]
    constructor
    · rintro ⟨b, hb, rfl, hv⟩
      exact ⟨b, (hm b).mpr (.inl ⟨hb, hk⟩), rfl, hv⟩
    · rintro ⟨b, hb, rfl, hv⟩
      rcases (hm b).mp hb with ⟨ho, -⟩ | rfl
      · exact ⟨b, ho, rfl, hv⟩
      · exact absurd rfl hk

end Maps

/-! ### Lists with keys -/

/-- Replaces the first entry that the predicate selects. -/
def updateFirst (p : α → Bool) (f : α → α) : List α → List α
  | [] => []
  | a :: entries => if p a then f a :: entries else a :: updateFirst p f entries

variable {key : α → κ} {p : α → Bool} {f : α → α} {e : List α} {a b : α} {k : κ}

theorem map_updateFirst (he : ∀ a, p a → key (f a) = key a) :
    (updateFirst p f e).map key = e.map key := by
  induction e with
  | nil => rfl
  | cons b e ih =>
    unfold updateFirst
    by_cases hb : p b
    · simp [hb, he b hb]
    · simp [hb, ih]

theorem mem_updateFirst (hp : ∀ a, p a ↔ key a = k) (hn : (e.map key).Nodup) :
    b ∈ updateFirst p f e ↔ (b ∈ e ∧ key b ≠ k) ∨ ∃ a ∈ e, key a = k ∧ b = f a := by
  induction e with
  | nil => simp [updateFirst]
  | cons c e ih =>
    obtain ⟨hf, hn⟩ := nodup_cons.mp hn
    unfold updateFirst
    by_cases hc : p c
    · have hck := (hp c).mp hc
      have hne : ∀ d ∈ e, key d ≠ k := by
        rintro d hd he
        exact hf (mem_map.mpr ⟨d, hd, he.trans hck.symm⟩)
      rw [if_pos hc]
      simp only [mem_cons]
      constructor
      · rintro (rfl | hb)
        · exact .inr ⟨c, .inl rfl, hck, rfl⟩
        · exact .inl ⟨.inr hb, hne b hb⟩
      · rintro (⟨rfl | hb, he⟩ | ⟨d, rfl | hd, he, rfl⟩)
        · exact absurd hck he
        · exact .inr hb
        · exact .inl rfl
        · exact absurd he (hne d hd)
    · have hck : key c ≠ k := fun he => hc ((hp c).mpr he)
      rw [if_neg hc]
      simp only [mem_cons, ih hn]
      constructor
      · rintro (rfl | ⟨hb, he⟩ | ⟨d, hd, he, rfl⟩)
        · exact .inl ⟨.inl rfl, hck⟩
        · exact .inl ⟨.inr hb, he⟩
        · exact .inr ⟨d, .inr hd, he, rfl⟩
      · rintro (⟨rfl | hb, he⟩ | ⟨d, rfl | hd, he, rfl⟩)
        · exact .inl rfl
        · exact .inr (.inl ⟨hb, he⟩)
        · exact absurd he hck
        · exact .inr (.inr ⟨d, hd, he, rfl⟩)

theorem mem_eraseP (hp : ∀ a, p a ↔ key a = k) (hn : (e.map key).Nodup) :
    b ∈ e.eraseP p ↔ b ∈ e ∧ key b ≠ k := by
  induction e with
  | nil => simp
  | cons c e ih =>
    obtain ⟨hf, hn⟩ := nodup_cons.mp hn
    by_cases hc : p c
    · have hck := (hp c).mp hc
      rw [eraseP_cons_of_pos hc, mem_cons]
      constructor
      · intro hb
        refine ⟨.inr hb, ?_⟩
        intro he
        exact hf (mem_map.mpr ⟨b, hb, he.trans hck.symm⟩)
      · rintro ⟨rfl | hb, he⟩
        · exact absurd hck he
        · exact hb
    · have hck : key c ≠ k := fun he => hc ((hp c).mpr he)
      rw [eraseP_cons_of_neg hc, mem_cons, mem_cons, ih hn]
      constructor
      · rintro (rfl | ⟨hb, he⟩)
        · exact ⟨.inl rfl, hck⟩
        · exact ⟨.inr hb, he⟩
      · rintro ⟨rfl | hb, he⟩
        · exact .inl rfl
        · exact .inr ⟨hb, he⟩

/-- Entries whose first key part is fixed differ in the second. -/
theorem nodup_map_filter {ι : Type} [DecidableEq κ] {r : α → κ} {s : α → ι}
    (hn : (e.map (fun a => (r a, s a))).Nodup) (k : κ) : ((e.filter (r · == k)).map s).Nodup := by
  refine List.Nodup.map_on ?_ (hn.of_map.filter _)
  intro a ha b hb hs
  obtain ⟨ha, hak⟩ := mem_filter.mp ha
  obtain ⟨hb, hbk⟩ := mem_filter.mp hb
  refine inj_on_of_nodup_map hn ha hb ?_
  rw [beq_iff_eq.mp hak, beq_iff_eq.mp hbk, hs]

/-- Entries that are dropped, or changed without their keys. -/
theorem map_filterMap_sublist {g : α → Option α} (he : ∀ a b, g a = some b → key b = key a) :
    ((e.filterMap g).map key).Sublist (e.map key) := by
  induction e with
  | nil => exact List.Sublist.slnil
  | cons a e ih =>
    cases ha : g a with
    | none =>
      rw [filterMap_cons_none ha, map_cons]
      exact ih.cons _
    | some b =>
      rw [filterMap_cons_some ha, map_cons, map_cons, he a b ha]
      exact ih.cons_cons _

/-- Up to an index before which nothing is dropped, entries keep their index. -/
theorem getElem?_filterMap_of_kept {g : α → Option β} {e : List α} {i : Nat} {a : α}
    (hi : e[i]? = some a) (hp : ∀ j < i, ∀ b, e[j]? = some b → (g b).isSome) {c : β}
    (ha : g a = some c) : (e.filterMap g)[i]? = some c := by
  induction e generalizing i with
  | nil => simp at hi
  | cons b e ih =>
    cases i with
    | zero =>
      obtain rfl : b = a := by simpa using hi
      simp [ha]
    | succ i =>
      obtain ⟨d, hd⟩ := Option.isSome_iff_exists.mp (hp 0 (Nat.succ_pos i) b rfl)
      rw [filterMap_cons_some hd, getElem?_cons_succ]
      apply ih (by simpa using hi)
      intro j hj c hc
      exact hp (j + 1) (Nat.succ_lt_succ hj) c (by simpa using hc)

end EntryMap
