import MatterJs.State.DataVersion

/-!
# A mirrored node

While a session works on its clone, the node that is mirrored goes on to report changes. The commit
keeps what the session has changed and takes over what was reported. Which of the two it is, is
inferred from the values the session started from; this works as long as nothing is reported that
the session is about to write anyway.
-/
namespace MatterJs.State

open TransitionSystem IndexedList InsertionMap Option Fields

variable {Name V : Type} {o : Options Name V} {a : Name}

/-- Values that are taken for equal are equal. -/
class DeepEqual.Sound (V : Type) [DeepEqual V] : Prop where
  eq_of_isDeepEqual : ∀ {a b : Option V}, isDeepEqual a b → a = b

theorem Datasource.names_subset_cloneKeys (o : Options Name V) (old : Fields Name V)
    (h : a ∈ old.names) : a ∈ cloneKeys o old := by
  unfold cloneKeys
  split_ifs
  · exact h
  · exact List.mem_append_right _ h

variable [DecidableEq Name]

/-! ### Fields -/

namespace Fields

variable {f cs : Fields Name V}

theorem at_set_self (f : Fields Name V) (a : Name) (vl : Option V) :
    Fields.at (set f a vl) a = vl := by
  rw [Fields.at, get_set_self]
  rfl

theorem at_set_of_ne (f : Fields Name V) {a name' : Name} (h : name' ≠ a)
    (v : Option V) : Fields.at (set f a v) name' = f.at name' := by
  rw [Fields.at, get_set_of_ne f v h]
  rfl

theorem at_of_notMem (h : a ∉ f.names) : f.at a = none := by
  cases hg : get f a with
  | none => rw [Fields.at, hg, join_none]
  | some v => exact absurd (mem_keys_iff.mpr ⟨v, hg⟩) h

theorem names_set (f : Fields Name V) (a : Name) (v : Option V) {n' : Name} :
    n' ∈ names (set f a v) ↔ n' = a ∨ n' ∈ f.names := by
  rw [names, keys_set]
  split_ifs with hm
  · constructor
    · exact .inr
    · rintro (rfl | ho)
      · exact hm
      · exact ho
  · rw [List.mem_append, List.mem_singleton]
    exact or_comm

theorem names_spread (f cs : Fields Name V) (h : a ∈ f.names) : a ∈ (f.spread cs).names := by
  induction cs generalizing f with
  | nil => exact h
  | cons entry cs ih => exact ih _ ((names_set ..).mpr (.inr h))

theorem at_spread_of_notMem (h : a ∉ cs.names) : (f.spread cs).at a = f.at a := by
  induction cs generalizing f with
  | nil => rfl
  | cons entry cs ih =>
    have hn : a ≠ entry.1 := fun he => h (he ▸ List.mem_cons_self ..)
    have hs : a ∉ names cs := fun hm => h (List.mem_cons_of_mem _ hm)
    calc (f.spread (entry :: cs)).at a
        = Fields.at (set f entry.1 entry.2) a := ih hs
      _ = f.at a := at_set_of_ne f hn _

theorem at_spread_of_mem {vl : Option V} (hd : cs.names.Nodup)
    (h : (a, vl) ∈ cs) : (f.spread cs).at a = vl := by
  induction cs generalizing f with
  | nil => cases h
  | cons entry cs ih =>
    obtain ⟨hn, hd⟩ := List.nodup_cons.mp hd
    rcases List.mem_cons.mp h with rfl | hm
    · calc (f.spread ((a, vl) :: cs)).at a
          = Fields.at (set f a vl) a := at_spread_of_notMem hn
        _ = vl := at_set_self ..
    · exact ih hd hm

/-- What is reported is the same whether or not the reports that change nothing are left out. -/
theorem at_spread_filter [DeepEqual V] [DeepEqual.Sound V] {g rs : Fields Name V}
    (hs : ∀ a, f.at a = g.at a)
    (hnd : rs.names.Nodup) (a : Name) :
    (f.spread (rs.filter (fun e => !isDeepEqual (f.at e.1) e.2))).at a = (g.spread rs).at a := by
  have hl := (List.filter_sublist (l := rs)
    (p := fun e => !isDeepEqual (f.at e.1) e.2)).map Prod.fst
  by_cases hm : a ∈ rs.names
  · obtain ⟨⟨name', vl⟩, he, rfl⟩ := List.mem_map.mp hm
    rw [at_spread_of_mem hnd he]
    by_cases hv : isDeepEqual (f.at name') vl
    · have hn : name' ∉ names (rs.filter (fun e => !isDeepEqual (f.at e.1) e.2)) := by
        intro hi
        obtain ⟨⟨n'', v'⟩, he', rfl⟩ := List.mem_map.mp hi
        obtain ⟨he', hd⟩ := List.mem_filter.mp he'
        have hq : v' = vl := by
          have hg := get_of_mem hnd he'
          rw [get_of_mem hnd he] at hg
          exact (Option.some.inj hg).symm
        simp [hq, hv] at hd
      rw [at_spread_of_notMem hn, DeepEqual.Sound.eq_of_isDeepEqual hv]
    · exact at_spread_of_mem (hnd.sublist hl) (List.mem_filter.mpr ⟨he, by simpa using hv⟩)
  · rw [at_spread_of_notMem (fun hi => hm (hl.subset hi)), at_spread_of_notMem hm, hs]

end Fields

namespace Datasource

variable {d d' : Datasource Name V} {r : Nat} {ref e : RootReference Name V} {b : Struct Name V}

/-! ### The clone -/

theorem clone_names (o : Options Name V) (l : Fields Name V)
    (h : a ∈ l.names) : a ∈ (clone o l).names := by
  have hy := names_subset_cloneKeys o l h
  have hf : ∀ (k : List Name) (f : Fields Name V), a ∈ k ∨ a ∈ f.names → a ∈ names
        (k.foldl (fun f key => set f key (l.at key)) f) := by
    intro k
    induction k with
    | nil =>
      rintro f (hn | hm)
      · cases hn
      · exact hm
    | cons key k ih =>
      intro f hm
      refine ih _ ?_
      rcases hm with hm | hm
      · rcases List.mem_cons.mp hm with rfl | hm
        · exact .inr ((Fields.names_set ..).mpr (.inl rfl))
        · exact .inl hm
      · exact .inr ((Fields.names_set ..).mpr (.inr hm))
  exact hf _ _ (.inl hy)

variable [DecidableEq V]

/-- The session has changed the field: its value is not the one it started from. -/
def changedHere (ref : RootReference Name V) (name : Name) : Bool :=
  match ref.baseValues with
  | some base => base.at name != ref.values.at name
  | none => false

/-- What is known of the values that the writer started from. -/
structure Started (d : Datasource Name V) (ref : RootReference Name V) (base : Struct Name V) :
    Prop where
  started : ref.baseValues = some base
  fresh : base.id < d.nextId
  same : base.id = d.values.id → base = d.values
  names : ∀ name ∈ base.fields.names, name ∈ d.values.fields.names
  names' : ∀ name ∈ base.fields.names, name ∈ ref.values.fields.names

theorem Started.changedHere_iff (h : Started d ref b) :
    changedHere ref a ↔ b.at a ≠ ref.values.at a := by
  simp [changedHere, h.started]

/-- A commit starts only where the session is not about to write what was reported anyway. -/
def distinct (d : Datasource Name V) : DatasourceEvent Name V → Bool
  | .commit1 r =>
    d.references[r]?.all (fun ref => ref.values.fields.names.all (fun name =>
      !changedHere ref name || d.values.at name != ref.values.at name))
  | _ => true

structure Mirrored (d : Datasource Name V) : Prop where
  tidy : d.Tidy
  reported : ∀ name, d.values.at name = d.reported.at name
  started : ∀ ref ∈ d.references, ref.phase ≠ .shared → ∃ base, Started d ref base
  unchanged : ∀ ref ∈ d.references, ref.phase = .committing → ref.changes = none →
    ∀ name, changedHere ref name = false

theorem Mirrored.keep (h : d.Mirrored) (ht : d'.Tidy) (hv : d'.values = d.values)
    (hrp : d'.reported = d.reported) (hi : d.nextId ≤ d'.nextId)
    (hr : ∀ q ∈ d'.references, q.phase ≠ .shared → (∃ b, Started d' q b) ∧
        (q.phase = .committing → q.changes = none → ∀ a, changedHere q a = false) ∨
      q ∈ d.references) : d'.Mirrored := by
  refine ⟨ht, ?_, ?_, ?_⟩
  · rw [hv, hrp]
    exact h.reported
  · intro q hq hp
    rcases hr q hq hp with hn | ho
    · exact hn.1
    · obtain ⟨b, hb⟩ := h.started q ho hp
      refine ⟨b, hb.started, Nat.lt_of_lt_of_le hb.fresh hi, ?_, ?_, hb.names'⟩
      · rw [hv]
        exact hb.same
      · rw [hv]
        exact hb.names
  · intro q hq hp hc
    rcases hr q hq (by rw [hp]; decide) with hn | ho
    · exact hn.2 hp hc
    · exact h.unchanged q ho hp hc

theorem Mirrored.setShared (h : d.Mirrored) (ht : (d.setReference r e).Tidy)
    (hp : e.phase = .shared) : (d.setReference r e).Mirrored := by
  refine h.keep ht rfl rfl (Nat.le_refl _) ?_
  intro q hq hq'
  rcases mem_setReference hq with rfl | ho
  · exact absurd hp hq'
  · exact .inr ho

theorem Mirrored.change (h : d.Mirrored) (hr : d.references[r]? = some ref)
    (hmay : d.mayWrite r ref) (a : Name) (v : Option V) : (d.change o r ref a v).Mirrored := by
  have ht : (d.change o r ref a v).Tidy := h.tidy.change hr hmay a v
  by_cases hi : ref.values.id = d.values.id
  · -- The session starts from the canonical values.
    simp only [Datasource.change, if_pos hi] at ht ⊢
    refine h.keep ht rfl rfl (Nat.le_succ _) ?_
    intro q hq _
    rcases mem_setReference hq with rfl | ho
    · have hv := h.tidy.same ref (List.mem_of_getElem? hr) hi
      refine .inl ⟨⟨ref.values, rfl, ?_, fun _ => hv, ?_, ?_⟩, fun hp => (by cases hp)⟩
      · rw [hv]
        exact Nat.lt_succ_of_lt h.tidy.fresh
      · intro name' hn
        exact hv ▸ hn
      · intro name' hn
        exact (Fields.names_set ..).mpr (.inr (clone_names o _ hn))
    · exact .inr ho
  · simp only [Datasource.change, if_neg hi] at ht ⊢
    refine h.keep ht rfl rfl (Nat.le_refl _) ?_
    intro q hq _
    rcases mem_setReference hq with rfl | ho
    · have hp : ref.phase ≠ .shared := by
        intro hs
        simp only [mayWrite, Bool.and_eq_true, Bool.not_eq_true'] at hmay
        exact hi (h.tidy.live ref (List.mem_of_getElem? hr) hs hmay.1.1.2 hmay.1.1.1)
      obtain ⟨b, hb⟩ := h.started ref (List.mem_of_getElem? hr) hp
      refine .inl ⟨⟨b, hb.started, hb.fresh, hb.same, hb.names, ?_⟩, fun hc => (by cases hc)⟩
      intro name' hn
      exact (Fields.names_set ..).mpr (.inr (hb.names' name' hn))
    · exact .inr ho

/-- What the session has changed, it is not about to write as it was reported. -/
theorem differs_of_distinct (hs : Started d ref b) (hr : d.references[r]? = some ref)
    (hd : d.distinct (.commit1 r)) (hc : changedHere ref a) :
    a ∈ ref.values.fields.names ∧ (d.values.at a != ref.values.at a) := by
  have hm : a ∈ ref.values.fields.names := by
    by_contra hn
    have he := hs.changedHere_iff.mp hc
    have hb : a ∉ b.fields.names := fun hi => hn (hs.names' a hi)
    exact he ((Fields.at_of_notMem hb).trans (Fields.at_of_notMem hn).symm)
  simp only [distinct, hr] at hd
  have hf := List.all_eq_true.mp hd a hm
  rw [hc, Bool.not_true, Bool.false_or] at hf
  exact ⟨hm, hf⟩

variable [DeepEqual V]

theorem Mirrored.commit2 (h : d.Mirrored) (hr : d.references[r]? = some ref)
    (hp : ref.phase = .committing) (hc : ref.changes ≠ none) :
    ((d.commit2 r ref).onShared r).Mirrored := by
  have hn : ref.phase ≠ .shared := by simp [hp]
  have hs : ∀ q ∈ ((d.commit2 r ref).onShared r).references, q.phase = .shared := by
    intro q hq
    obtain ⟨i, hi⟩ := List.getElem?_of_mem hq
    exact (getElem?_commit2 h.tidy hr hn hc hi).1
  refine ⟨h.tidy.commit2 hr hn hc, ?_, ?_, ?_⟩
  · intro a
    obtain ⟨references, he⟩ := commit2_eq (d := d) (r := r) hc
    rw [he]
    rfl
  · intro q hq hq'
    exact absurd (hs q hq) hq'
  · intro q hq hq'
    rw [hs q hq] at hq'
    cases hq'

/-! ### Comparing soundly -/

variable [DeepEqual.Sound V]

theorem differs_eq (a b : Option V) : (a != b && !isDeepEqual b a) = (a != b) := by
  cases he : isDeepEqual b a with
  | false => simp
  | true => simp [DeepEqual.Sound.eq_of_isDeepEqual he]

/-- Where phase one finds nothing to commit, the session has changed nothing. -/
theorem unchanged_of_distinct (hb : Started d ref b) (hr : d.references[r]? = some ref)
    (hl : ref.values.id ≠ d.values.id) (hd : d.distinct (.commit1 r))
    (hn : computePostCommitChanges o d ref = none) (a : Name) : changedHere ref a = false := by
  by_contra hc
  rw [Bool.not_eq_false] at hc
  obtain ⟨hm, hf⟩ := differs_of_distinct hb hr hd hc
  simp only [computePostCommitChanges, if_neg (Ne.symm hl)] at hn
  split_ifs at hn with he
  exact List.filter_eq_nil_iff.mp he a hm ((differs_eq ..).trans hf)

section
variable (h : d.Mirrored)
include h

theorem Mirrored.commit1 (hr : d.references[r]? = some ref) (hp : ref.phase = .exclusive)
    (hd : d.distinct (.commit1 r)) : (commit1 o d r ref).Mirrored := by
  have he : ref.phase ≠ .shared := by simp [hp]
  obtain ⟨b, hs⟩ := h.started ref (List.mem_of_getElem? hr) he
  obtain ⟨e, hf, hv, hb, -, hnn, hc, hn, -, hrp, -⟩ :=
    commit1_spec o d r ref
  refine h.keep (h.tidy.commit1 hr hp) hc hrp (Nat.le_of_eq hn.symm) ?_
  intro q hq _
  rw [hf] at hq
  rcases mem_setReference (d := d) hq with rfl | ho
  · refine .inl ⟨⟨b, hb.trans hs.started, ?_, ?_, ?_, ?_⟩, ?_⟩
    · rw [hn]
      exact hs.fresh
    · rw [hc]
      exact hs.same
    · rw [hc]
      exact hs.names
    · rw [hv]
      exact hs.names'
    · intro _ hh a
      have hu := unchanged_of_distinct hs hr (h.tidy.cloned r ref hr he).1 hd
        (hnn.mp hh) a
      simpa [changedHere, hv, hb] using hu
  · exact .inr ho

theorem Mirrored.integrateExternalChange {pc : Fields Name V}
    (hd : pc.names.Nodup) (v : Nat) (ht : (integrateExternalChange o d pc v).Tidy) :
    (integrateExternalChange o d pc v).Mirrored := by
  have hn' : names (pc.filter (fun e => !o.isMetadataKey e.1))
      |>.Nodup := List.Nodup.sublist (List.filter_sublist.map Prod.fst) hd
  have ha := at_spread_filter h.reported hn'
  simp only [Datasource.integrateExternalChange] at ht ⊢
  split_ifs at ht ⊢ with he
  · refine ⟨ht, ?_, ?_, h.unchanged⟩
    · intro a
      have hn := ha a
      rw [show (pc.filter (fun e => !o.isMetadataKey e.1)).filter
        (fun e => !isDeepEqual (d.values.fields.at e.1) e.2) = [] from he] at hn
      exact hn
    · intro q hq hp
      obtain ⟨b, hb⟩ := h.started q hq hp
      exact ⟨b, hb.started, hb.fresh, hb.same, hb.names, hb.names'⟩
  · -- The writer has a clone and keeps it.
    have hw : ∀ {va : Struct Name V},
        ∀ q ∈ (setValues { d with nextId := d.nextId + 1 } va).references,
        q.phase ≠ .shared → q ∈ d.references := by
      intro va q hq hp
      obtain ⟨i, hi⟩ := List.getElem?_of_mem hq
      obtain ⟨l, ho, hp', hc⟩ := getElem?_setValues hi
      rw [hp'] at hp
      rcases hc with ⟨-, hid⟩ | ⟨rfl, -⟩
      · exact absurd hid (h.tidy.cloned i l ho hp).1
      · exact List.mem_of_getElem? ho
    refine ⟨ht, ha, ?_, ?_⟩
    · intro q hq hp
      obtain ⟨b, hb⟩ := h.started q (hw q hq hp) hp
      refine ⟨b, hb.started, Nat.lt_succ_of_lt hb.fresh, ?_, ?_, hb.names'⟩
      · intro heq
        exact absurd heq (Nat.ne_of_lt hb.fresh)
      · intro a hn
        exact Fields.names_spread _ _ (hb.names a hn)
    · intro q hq hp
      exact h.unchanged q (hw q hq (by rw [hp]; decide)) hp

theorem Mirrored.step {e : DatasourceEvent Name V}
    (hd : d.distinct e) (hs : d.step o e = some d') : d'.Mirrored := by
  have ht := h.tidy.step hs
  cases happens_of_step h.tidy hs with
  | reference s =>
    refine h.keep ht rfl rfl (Nat.le_refl _) ?_
    intro q hq hp
    rcases mem_concat_cases hq with ho | rfl
    · exact .inr ho
    · exact absurd rfl hp
  | change hr hmay a v => exact h.change hr hmay a v
  | refused => exact h
  | commit1 hr hp => exact h.commit1 hr hp hd
  | commit2 hr hp hc => exact h.commit2 hr hp hc
  | release => exact h.setShared ht rfl
  | close hr hp => exact h.setShared ht hp
  | integrateExternalChange _ hnd ve =>
    exact h.integrateExternalChange hnd ve ht
  | advanceVersion =>
    obtain ⟨hv, hn, hf, -, hrp⟩ := advanceVersion_keeps o d
    refine h.keep ht hv hrp (Nat.le_of_eq hn.symm) ?_
    intro q hq _
    rw [hf] at hq
    exact .inr hq
  | observe => exact h.keep ht rfl rfl (Nat.le_refl _) (fun q hq _ => .inr hq)

end

/-! ### The result -/

instance : DeepEqual.Sound Nat := ⟨eq_of_beq⟩

end Datasource

end MatterJs.State
