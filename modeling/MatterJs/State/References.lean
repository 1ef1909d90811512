import MatterJs.State.Datasource
import MatterJs.Foundation.IndexedList

/-!
# Who has which object

The identity of the values tells a session that reads the canonical values from one that works on
a clone of its own. At most one session has a clone, and nobody else has that object.
-/
namespace MatterJs.State

open TransitionSystem List Option

variable {Name V : Type}

namespace Datasource

variable {o : Options Name V} {d d' : Datasource Name V} {r : Nat}
  {ref e : RootReference Name V}

structure Tidy (d : Datasource Name V) : Prop where
  fresh : d.values.id < d.nextId
  freshReferences : ∀ ref ∈ d.references, ref.values.id < d.nextId
  same : ∀ ref ∈ d.references, ref.values.id = d.values.id → ref.values = d.values
  cloned : ∀ (i : Nat) (ref : RootReference Name V), d.references[i]? = some ref →
    ref.phase ≠ .shared → ref.values.id ≠ d.values.id ∧
      ∀ (j : Nat) (other : RootReference Name V), d.references[j]? = some other → j ≠ i →
        other.values.id ≠ ref.values.id ∧ other.phase = .shared
  live : ∀ ref ∈ d.references, ref.phase = .shared → ref.snapshot = false → ref.expired = false →
    ref.values.id = d.values.id

theorem initial_tidy (v : Nat) (f : Fields Name V) : (initial v f).Tidy :=
  ⟨Nat.one_pos, fun _ h => (by cases h), fun _ h => (by cases h), fun _ _ h => (by cases h),
    fun _ h => (by cases h)⟩

theorem getElem?_setReference_cases {i : Nat} {q : RootReference Name V}
    (h : (d.setReference r ref).references[i]? = some q) :
    i = r ∧ q = ref ∨ i ≠ r ∧ d.references[i]? = some q :=
  IndexedList.getElem?_set_cases h

theorem mem_setReference {q : RootReference Name V}
    (h : q ∈ (d.setReference r ref).references) : q = ref ∨ q ∈ d.references := by
  obtain ⟨i, hi⟩ := getElem?_of_mem h
  rcases getElem?_setReference_cases hi with ⟨-, he⟩ | ⟨-, ho⟩
  · exact .inl he
  · exact .inr (mem_of_getElem? ho)

theorem Tidy.setReference (h : d.Tidy) (hf : e.values.id < d.nextId)
    (hs : e.values.id = d.values.id → e.values = d.values)
    (hsl : e.phase ≠ .shared → e.values.id ≠ d.values.id)
    (ho : ∀ (i : Nat) (t : RootReference Name V), d.references[i]? = some t → i ≠ r →
      (t.phase ≠ .shared → e.values.id ≠ t.values.id ∧ e.phase = .shared) ∧
      (e.phase ≠ .shared → t.values.id ≠ e.values.id ∧ t.phase = .shared))
    (hv : e.phase = .shared → e.snapshot = false → e.expired = false →
      e.values.id = d.values.id) : (d.setReference r e).Tidy := by
  refine ⟨h.fresh, ?_, ?_, ?_, ?_⟩
  · intro q hq
    rcases mem_setReference hq with rfl | hl
    · exact hf
    · exact h.freshReferences q hl
  · intro q hq
    rcases mem_setReference hq with rfl | hl
    · exact hs
    · exact h.same q hl
  · intro i q hi hq
    rcases getElem?_setReference_cases hi with ⟨rfl, rfl⟩ | ⟨hn, hl⟩
    · refine ⟨hsl hq, ?_⟩
      intro j t hj hji
      rcases getElem?_setReference_cases hj with ⟨rfl, -⟩ | ⟨-, hl⟩
      · exact absurd rfl hji
      · exact (ho j t hl hji).2 hq
    · obtain ⟨hc, hrs⟩ := h.cloned i q hl hq
      refine ⟨hc, ?_⟩
      intro j t hj hji
      rcases getElem?_setReference_cases hj with ⟨rfl, rfl⟩ | ⟨-, ho'⟩
      · exact (ho i q hl hn).1 hq
      · exact hrs j t ho' hji
  · intro q hq
    rcases mem_setReference hq with rfl | hl
    · exact hv
    · exact h.live q hl

section

variable (h : d.Tidy) (hr : d.references[r]? = some ref)
include h hr

/-- A reference returns to shared with the canonical values, or stays as it was. -/
theorem Tidy.setShared (hp : e.phase = .shared)
    (hv : e.values = d.values ∨ e.values = ref.values ∧ ref.phase = .shared)
    (hl : e.snapshot = false → e.expired = false → e.values.id = d.values.id) :
    (d.setReference r e).Tidy := by
  refine h.setReference ?_ ?_ (fun hq => absurd hp hq) ?_ (fun _ => hl)
  · rcases hv with he | ⟨he, -⟩
    · rw [he]
      exact h.fresh
    · rw [he]
      exact h.freshReferences ref (mem_of_getElem? hr)
  · intro hs
    rcases hv with he | ⟨he, -⟩
    · exact he
    · rw [he] at hs ⊢
      exact h.same ref (mem_of_getElem? hr) hs
  · intro i other hi hn
    refine ⟨fun ht => ⟨?_, hp⟩, fun hq => absurd hp hq⟩
    obtain ⟨hc, ho⟩ := h.cloned i other hi ht
    rcases hv with he | ⟨he, -⟩
    · rw [he]
      exact Ne.symm hc
    · rw [he]
      exact (ho r ref hr (Ne.symm hn)).1

/-- The writer stays the writer: its object is its own, with whatever fields. -/
theorem Tidy.setWriter (hp : ref.phase ≠ .shared)
    (hp' : e.phase ≠ .shared) (hd : e.values.id = ref.values.id) : (d.setReference r e).Tidy := by
  obtain ⟨hc, ho⟩ := h.cloned r ref hr hp
  rw [← hd] at hc ho
  refine h.setReference ?_ (fun hm => absurd hm hc) (fun _ => hc) ?_
    (fun hs => absurd hs hp')
  · rw [hd]
    exact h.freshReferences ref (mem_of_getElem? hr)
  · intro i other hi hn
    have ht := ho i other hi hn
    exact ⟨fun hq => absurd ht.2 hq, fun _ => ht⟩

theorem Tidy.release :
    (d.setReference r { ref with values := d.values, baseValues := none, phase := .shared }).Tidy :=
  h.setShared hr rfl (.inl rfl) (fun _ _ => rfl)

end

theorem mayWrite_others (hmay : d.mayWrite r ref) {j : Nat} {t : RootReference Name V}
    (hj : d.references[j]? = some t) (hn : j ≠ r) : t.phase = .shared := by
  simp only [mayWrite, Bool.and_eq_true] at hmay
  have ha := List.all_eq_true.mp hmay.2 j
    (List.mem_range.mpr (List.getElem?_eq_some_iff.mp hj).1)
  simpa [hn, hj] using ha

theorem getElem?_setValues {v : Struct Name V} {i : Nat} {q : RootReference Name V}
    (h : (d.setValues v).references[i]? = some q) : ∃ ref, d.references[i]? = some ref ∧ q.phase =
    ref.phase ∧ ((q.values = v ∧ ref.values.id = d.values.id) ∨
    (q = ref ∧ (ref.snapshot ∨ ref.expired ∨ ref.values.id ≠ d.values.id))) := by
  simp only [setValues, getElem?_map, map_eq_some_iff] at h
  obtain ⟨ref, he, rfl⟩ := h
  refine ⟨ref, he, ?_, ?_⟩
  · split_ifs <;> rfl
  · split_ifs with hc
    · simp only [Bool.and_eq_true, beq_iff_eq] at hc
      exact .inl ⟨rfl, hc.2⟩
    · refine .inr ⟨rfl, ?_⟩
      by_contra hn
      simp only [not_or, ne_eq, not_not] at hn
      simp [hn.1, hn.2.1, hn.2.2] at hc

/-- The canonical values are replaced by a new object. -/
theorem Tidy.setValues (h : d.Tidy) (fields : Fields Name V) :
    ({ d with nextId := d.nextId + 1 }.setValues { id := d.nextId, fields }).Tidy := by
  have hc : ∀ q ∈ ({ d with nextId := d.nextId + 1 }.setValues
      { id := d.nextId, fields }).references, q.values = { id := d.nextId, fields } ∨
        q ∈ d.references ∧ (q.snapshot ∨ q.expired ∨ q.values.id ≠ d.values.id) := by
    intro q hq
    obtain ⟨i, hi⟩ := getElem?_of_mem hq
    obtain ⟨ref, hf, -, ⟨heq, -⟩ | ⟨rfl, hcs⟩⟩ := getElem?_setValues hi
    · exact .inl heq
    · exact .inr ⟨mem_of_getElem? hf, hcs⟩
  refine ⟨Nat.lt_succ_self _, ?_, ?_, ?_, ?_⟩
  · intro q hq
    rcases hc q hq with heq | ⟨hl, -⟩
    · rw [heq]
      exact Nat.lt_succ_self _
    · exact Nat.lt_succ_of_lt (h.freshReferences q hl)
  · intro q hq hm
    rcases hc q hq with heq | ⟨hl, -⟩
    · exact heq
    · exact absurd hm (Nat.ne_of_lt (h.freshReferences q hl))
  · intro i q hi hq
    obtain ⟨ref, hf, hp, hv⟩ := getElem?_setValues hi
    rw [hp] at hq
    obtain ⟨hcl, ho⟩ := h.cloned i ref hf hq
    rcases hv with ⟨-, hd⟩ | ⟨rfl, -⟩
    · exact absurd hd hcl
    · have ht := h.freshReferences q (mem_of_getElem? hf)
      refine ⟨Nat.ne_of_lt ht, ?_⟩
      intro j other hj hji
      obtain ⟨l, hl, hp', hv'⟩ := getElem?_setValues hj
      obtain ⟨hne, hs⟩ := ho j l hl hji
      refine ⟨?_, hp'.trans hs⟩
      rcases hv' with ⟨heq, -⟩ | ⟨rfl, -⟩
      · rw [heq]
        exact Nat.ne_of_gt ht
      · exact hne
  · intro q hq hs hn he
    rcases hc q hq with heq | ⟨hl, hcs⟩
    · exact congrArg Struct.id heq
    · have hd : q.values.id ≠ d.values.id := by simpa [hn, he] using hcs
      exact absurd (h.live q hl hs hn he) hd

theorem rollback_eq (hr : d.references[r]? = some ref) : d.rollback r ref
      = d.setReference r { ref with values := d.values, baseValues := none, phase := .shared } := by
  have hs : (d.setReference r (rollbackReference d ref)).references[r]?
      = some (rollbackReference d ref) :=
    List.getElem?_set_self (List.getElem?_eq_some_iff.mp hr).1
  simp only [rollback, onShared, hs]
  simp [rollbackReference, setReference]

theorem advanceVersion_keeps (o : Options Name V) (d : Datasource Name V) :
    (advanceVersion o d).values = d.values ∧ (advanceVersion o d).nextId = d.nextId ∧
      (advanceVersion o d).references = d.references ∧
      (advanceVersion o d).observed = d.observed ∧ (advanceVersion o d).reported = d.reported := by
  unfold advanceVersion
  split <;> exact ⟨rfl, rfl, rfl, rfl, rfl⟩

theorem Tidy.congr (h : d.Tidy) (hv : d'.values = d.values) (hn : d'.nextId = d.nextId)
    (hr : d'.references = d.references) : d'.Tidy := by
  refine ⟨?_, ?_, ?_, ?_, ?_⟩
  · rw [hv, hn]
    exact h.fresh
  · rw [hr, hn]
    exact h.freshReferences
  · rw [hr, hv]
    exact h.same
  · rw [hr, hv]
    exact h.cloned
  · rw [hr, hv]
    exact h.live

theorem Tidy.reference (h : d.Tidy) (snapshot : Bool) :
    Tidy { d with references := d.references ++ [{ values := d.values, snapshot }] } := by
  have hc : ∀ q ∈ d.references ++ [{ values := d.values, snapshot }],
      q ∈ d.references ∨ q = { values := d.values, snapshot } := by
    intro q hq
    rcases mem_append.mp hq with hl | hn
    · exact .inl hl
    · exact .inr (mem_singleton.mp hn)
  refine ⟨h.fresh, ?_, ?_, ?_, ?_⟩
  · intro q hq
    rcases hc q hq with hl | rfl
    · exact h.freshReferences q hl
    · exact h.fresh
  · intro q hq hm
    rcases hc q hq with hl | rfl
    · exact h.same q hl hm
    · rfl
  · intro i q hi hq
    rcases IndexedList.getElem?_concat_cases hi with hl | ⟨-, rfl⟩
    · obtain ⟨hcl, ho⟩ := h.cloned i q hl hq
      refine ⟨hcl, ?_⟩
      intro j other hj hji
      rcases IndexedList.getElem?_concat_cases hj with ho' | ⟨-, rfl⟩
      · exact ho j other ho' hji
      · exact ⟨Ne.symm hcl, rfl⟩
    · exact absurd rfl hq
  · intro q hq hh hs he
    rcases hc q hq with hl | rfl
    · exact h.live q hl hh hs he
    · rfl

variable [DecidableEq Name]

theorem Tidy.change (h : d.Tidy) (hr : d.references[r]? = some ref) (hmay : d.mayWrite r ref)
    (name : Name) (v : Option V) : (d.change o r ref name v).Tidy := by
  by_cases hd : ref.values.id = d.values.id
  · -- The clone is a new object.
    simp only [Datasource.change, if_pos hd]
    have hn : Tidy { d with nextId := d.nextId + 1 } :=
      ⟨Nat.lt_succ_of_lt h.fresh, fun q hq => Nat.lt_succ_of_lt (h.freshReferences q hq), h.same,
        h.cloned, h.live⟩
    refine hn.setReference (Nat.lt_succ_self _) (fun hm => absurd hm (Nat.ne_of_gt h.fresh))
      (fun _ => Nat.ne_of_gt h.fresh) ?_ (fun hs => (by cases hs))
    intro i other hi he
    have hs := mayWrite_others hmay hi he
    exact ⟨fun hq => absurd hs hq, fun _ =>
      ⟨Nat.ne_of_lt (h.freshReferences other (mem_of_getElem? hi)), hs⟩⟩
  · simp only [Datasource.change, if_neg hd]
    have hp : ref.phase ≠ .shared := by
      intro hs
      simp only [mayWrite, Bool.and_eq_true, Bool.not_eq_true'] at hmay
      exact hd (h.live ref (mem_of_getElem? hr) hs hmay.1.1.2 hmay.1.1.1)
    exact h.setWriter hr hp (fun heq => (by cases heq)) rfl

variable [DecidableEq V] [DeepEqual V]

theorem adoptConcurrentChanges_id (d : Datasource Name V) (ref : RootReference Name V) :
    (d.adoptConcurrentChanges ref).id = ref.values.id := by
  unfold adoptConcurrentChanges
  split
  · rfl
  · split_ifs <;> rfl

theorem commit2_eq (hc : ref.changes ≠ none) : ∃ references,
    (d.commit2 r ref).onShared r = { d with
      featuresKeyPersisted := d.featuresKeyPersisted || ref.stagedFeaturesKey
      reported := (d.adoptConcurrentChanges ref).fields
      values := d.adoptConcurrentChanges ref
      references } := by
  obtain ⟨changes, hs⟩ := ne_none_iff_exists'.mp hc
  simp only [commit2, hs]
  unfold onShared
  split
  · exact ⟨_, rfl⟩
  · exact ⟨_, rfl⟩

theorem commit2_values (hc : ref.changes ≠ none) :
    ((d.commit2 r ref).onShared r).values = d.adoptConcurrentChanges ref := by
  obtain ⟨_, he⟩ := commit2_eq (d := d) (r := r) hc
  rw [he]

/-- What phase one leaves alone, and how the version goes. -/
theorem commit1_spec (o : Options Name V) (d : Datasource Name V) (r : Nat)
    (ref : RootReference Name V) : ∃ e, (commit1 o d r ref).references = d.references.set r e ∧
      e.values = ref.values ∧ e.baseValues = ref.baseValues ∧ e.phase = .committing ∧
      (e.changes = none ↔ computePostCommitChanges o d ref = none) ∧
      (commit1 o d r ref).values = d.values ∧ (commit1 o d r ref).nextId = d.nextId ∧
      (commit1 o d r ref).observed = d.observed ∧ (commit1 o d r ref).reported = d.reported ∧
      (computePostCommitChanges o d ref = none → (commit1 o d r ref).version = d.version ∧
        (commit1 o d r ref).advances = d.advances) ∧ (computePostCommitChanges o d ref ≠ none →
        (commit1 o d r ref).version = (advanceVersion o d).version ∧
        (commit1 o d r ref).advances = (advanceVersion o d).advances) := by
  obtain ⟨hv, hi, hr, ho, hp⟩ := advanceVersion_keeps o d
  unfold commit1
  cases hc : computePostCommitChanges o d ref with
  | none =>
    exact ⟨_, rfl, rfl, rfl, rfl, by simp, rfl, rfl, rfl, rfl, fun _ => ⟨rfl, rfl⟩,
      fun he => absurd rfl he⟩
  | some changes =>
    dsimp only
    cases changes.stored with
    | none =>
      exact ⟨_, congrArg (List.set · r _) hr, rfl, rfl, rfl, by simp, hv, hi,
        ho, hp, fun hn => (by cases hn), fun _ => ⟨rfl, rfl⟩⟩
    | some s =>
      exact ⟨_, congrArg (List.set · r _) hr, rfl, rfl, rfl, by simp, hv, hi,
        ho, hp, fun hn => (by cases hn), fun _ => ⟨rfl, rfl⟩⟩

section

variable (h : d.Tidy) (hr : d.references[r]? = some ref)
include h hr

theorem Tidy.commit1 (hp : ref.phase = .exclusive) : (commit1 o d r ref).Tidy := by
  obtain ⟨e, hf, hv, -, hc, -, hcn, hn, -⟩ :=
    commit1_spec o d r ref
  have hw : (d.setReference r e).Tidy := by
    refine h.setWriter hr ?_ ?_ (by rw [hv])
    · rw [hp]
      decide
    · rw [hc]
      decide
  exact hw.congr hcn hn hf

variable (hp : ref.phase ≠ .shared)
include hp

theorem getElem?_commit2 (hc : ref.changes ≠ none) {i : Nat}
    {q : RootReference Name V} (hi : ((d.commit2 r ref).onShared r).references[i]? = some q) :
    q.phase = .shared ∧ (q.values = d.adoptConcurrentChanges ref ∨
      (i ≠ r ∧ d.references[i]? = some q ∧
        (q.snapshot ∨ q.expired ∨ q.values.id ≠ d.values.id))) := by
  obtain ⟨hcl, ht⟩ := h.cloned r ref hr hp
  obtain ⟨changes, hs⟩ := ne_none_iff_exists'.mp hc
  have hlt := (List.getElem?_eq_some_iff.mp hr).1
  let va := d.adoptConcurrentChanges ref
  have hd : va.id = ref.values.id := adoptConcurrentChanges_id d ref
  -- The writer is not among those that get the new object: it has it already.
  have hsl : (d.commit2 r ref).references[r]?
      = some { ref with values := va, stagedFeaturesKey := false } := by
    simp only [commit2, hs, setReference, setValues, getElem?_map,
      List.getElem?_set_self hlt, map_some]
    have hn : (d.adoptConcurrentChanges ref).id ≠ d.values.id := hd ▸ hcl
    simp [hn, va]
  have hv : (d.commit2 r ref).values = va := by
    simp only [commit2, hs]
    rfl
  have ho : (d.commit2 r ref).onShared r = (d.commit2 r ref).setReference r
      { ref with values := va, stagedFeaturesKey := false, phase := .shared } := by
    simp [onShared, hsl, hv]
  rw [ho] at hi
  rcases getElem?_setReference_cases hi with ⟨-, rfl⟩ | ⟨hn, hl⟩
  · exact ⟨rfl, .inl rfl⟩
  · simp only [commit2, hs] at hl
    obtain ⟨l, ho', hp', hcs⟩ := getElem?_setValues hl
    rcases getElem?_setReference_cases ho' with ⟨he, -⟩ | ⟨-, ho''⟩
    · exact absurd he hn
    · refine ⟨hp'.trans (ht i l ho'' hn).2, ?_⟩
      rcases hcs with ⟨he, -⟩ | ⟨rfl, hcs⟩
      · exact .inl he
      · exact .inr ⟨hn, ho'', hcs⟩

theorem Tidy.commit2 (hc : ref.changes ≠ none) : ((d.commit2 r ref).onShared r).Tidy := by
  obtain ⟨hcl, ho⟩ := h.cloned r ref hr hp
  have hd := adoptConcurrentChanges_id d ref
  have ht : ref.values.id < d.nextId := h.freshReferences ref (mem_of_getElem? hr)
  have hn : ((d.commit2 r ref).onShared r).nextId = d.nextId := by
    obtain ⟨_, heq⟩ := commit2_eq (d := d) (r := r) hc
    rw [heq]
  have hcs : ∀ q ∈ ((d.commit2 r ref).onShared r).references,
      q.values = d.adoptConcurrentChanges ref ∨ ∃ i ≠ r, d.references[i]? = some q ∧
        (q.snapshot ∨ q.expired ∨ q.values.id ≠ d.values.id) := by
    intro q hq
    obtain ⟨i, hi⟩ := getElem?_of_mem hq
    exact (getElem?_commit2 h hr hp hc hi).2.imp_right fun hl => ⟨i, hl⟩
  refine ⟨?_, ?_, ?_, ?_, ?_⟩
  · rw [commit2_values hc, hn, hd]
    exact ht
  · intro q hq
    rw [hn]
    rcases hcs q hq with heq | ⟨i, -, hl, -⟩
    · rw [heq, hd]
      exact ht
    · exact h.freshReferences q (mem_of_getElem? hl)
  · intro q hq hm
    rw [commit2_values hc] at hm ⊢
    rcases hcs q hq with heq | ⟨i, hne, hl, -⟩
    · exact heq
    · rw [hd] at hm
      exact absurd hm (ho i q hl hne).1
  · intro i q hi hq
    exact absurd (getElem?_commit2 h hr hp hc hi).1 hq
  · intro q hq hh hs he
    rw [commit2_values hc]
    rcases hcs q hq with heq | ⟨i, hne, hl, ha⟩
    · rw [heq]
    · have hin : q.values.id ≠ d.values.id := by simpa [hs, he] using ha
      exact absurd (h.live q (mem_of_getElem? hl) hh hs he) hin

theorem onShared_of_none (hc : ref.changes = none) : (d.commit2 r ref).onShared r
      = d.setReference r { ref with values := d.values, baseValues := none, phase := .shared } := by
  have hl := (h.cloned r ref hr hp).1
  simp [commit2, hc, onShared, hr, if_neg hl, rollbackReference]

end

/-- What a step does. A commit without changes ends like a rollback. -/
inductive Happens (o : Options Name V) (d : Datasource Name V) :
    DatasourceEvent Name V → Datasource Name V → Prop
  | reference (snapshot : Bool) : Happens o d (.reference snapshot)
      { d with references := d.references ++ [{ values := d.values, snapshot }] }
  | change {r : Nat} {ref : RootReference Name V} (hr : d.references[r]? = some ref)
      (hmay : d.mayWrite r ref) (name : Name) (value : Option V) :
      Happens o d (.assign r name value) (d.change o r ref name value)
  | refused (r : Nat) (name : Name) (value : Option V) : Happens o d (.assign r name value) d
  | commit1 {r : Nat} {ref : RootReference Name V} (hr : d.references[r]? = some ref)
      (hphase : ref.phase = .exclusive) : Happens o d (.commit1 r) (commit1 o d r ref)
  | commit2 {r : Nat} {ref : RootReference Name V} (hr : d.references[r]? = some ref)
      (hphase : ref.phase = .committing) (hchanges : ref.changes ≠ none) :
      Happens o d (.settle r true) ((d.commit2 r ref).onShared r)
  | release {event : DatasourceEvent Name V} {r : Nat} {ref : RootReference Name V}
      (hr : d.references[r]? = some ref) : Happens o d event
      (d.setReference r { ref with values := d.values, baseValues := none, phase := .shared })
  | close {r : Nat} {ref : RootReference Name V} (hr : d.references[r]? = some ref)
      (hphase : ref.phase = .shared) :
      Happens o d (.close r) (d.setReference r { ref with expired := true })
  | integrateExternalChange {potentialChanges : Fields Name V} (hremote : o.mirrorsRemote)
      (hnodup : potentialChanges.names.Nodup) (version : Nat) :
      Happens o d (.integrateExternalChange potentialChanges version)
        (integrateExternalChange o d potentialChanges version)
  | advanceVersion : Happens o d .advanceVersion (advanceVersion o d)
  | observe {r : Nat} {ref : RootReference Name V} (hr : d.references[r]? = some ref) :
      Happens o d (.observe r) (d.observe ref)

variable {ev : DatasourceEvent Name V}

theorem happens_of_step (h : d.Tidy) (ht : d.step o ev = some d') : Happens o d ev d' := by
  cases ev with
  | reference s =>
    cases ht
    exact .reference s
  | assign r name value =>
    obtain ⟨ref, hr, rfl⟩ := map_eq_some_iff.mp ht
    split_ifs with hmay
    · exact .change hr hmay name value
    · exact .refused r name value
  | integrateExternalChange p v =>
    obtain ⟨hm, rfl⟩ := of_enabled ht
    exact .integrateExternalChange hm.1 hm.2 v
  | advanceVersion =>
    cases ht
    exact .advanceVersion
  | settle r ok =>
    obtain ⟨ref, hr, ha⟩ := bind_eq_some_iff.mp ht
    split_ifs at ha with hp ho
    · cases ha
      by_cases hc : ref.changes = none
      · rw [onShared_of_none h hr (by rw [hp]; decide) hc]
        exact .release hr
      · rw [ho]
        exact .commit2 hr hp hc
    · cases ha
      rw [rollback_eq hr]
      exact .release hr
  | rollback r =>
    obtain ⟨ref, hr, ha⟩ := bind_eq_some_iff.mp ht
    split_ifs at ha
    cases ha
    rw [rollback_eq hr]
    exact .release hr
  | _ r =>
    obtain ⟨ref, hr, ha⟩ := bind_eq_some_iff.mp ht
    split_ifs at ha with hp
    cases ha
    first
    | exact .commit1 hr hp
    | exact .close hr hp
    | exact .observe hr

theorem Tidy.step (h : d.Tidy) (ht : d.step o ev = some d') : d'.Tidy := by
  cases happens_of_step h ht with
  | reference s => exact h.reference s
  | change hr hmay name value => exact h.change hr hmay name value
  | refused => exact h
  | commit1 hr hp => exact h.commit1 hr hp
  | commit2 hr hp hc => exact h.commit2 hr (by rw [hp]; decide) hc
  | release hr => exact h.release hr
  | close hr hp =>
    exact h.setShared hr hp (.inr ⟨rfl, hp⟩) (fun _ he => (by cases he))
  | integrateExternalChange =>
    unfold Datasource.integrateExternalChange
    dsimp only
    split_ifs
    · exact h.congr rfl rfl rfl
    · exact (h.setValues _).congr rfl rfl rfl
  | advanceVersion =>
    obtain ⟨hv, hn, hf, -, -⟩ := advanceVersion_keeps o d
    exact h.congr hv hn hf
  | observe => exact h.congr rfl rfl rfl

end Datasource

end MatterJs.State
