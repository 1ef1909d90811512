import MatterJs.State.References
import Mathlib.Algebra.Order.Ring.Nat

/-!
# One version, one set of values

Phase one of a commit advances the version and phase two replaces the values. A reader that comes
in between has the new version with the old values. Readers that only look when no commit is under
way, and at values that are current, never see two sets of values under one version.
-/
namespace MatterJs.State

open TransitionSystem IndexedList

variable {Name V : Type}

namespace Datasource

variable {o : Options Name V} {d d' : Datasource Name V} {r f : Nat}
  {ref ref' : RootReference Name V}

/-- A commit has advanced the version and has not replaced the values yet. -/
def pending (d : Datasource Name V) : Bool :=
  d.references.any (fun ref => ref.phase == .committing && ref.changes.isSome)

/-- Readers look while no commit is under way, and at the canonical values. The version does not
come round to where it was. -/
def settled (d : Datasource Name V) : DatasourceEvent Name V → Bool
  | .observe r =>
    !d.pending && d.references[r]?.all (·.values.id == d.values.id)
  | .commit1 _ | .advanceVersion => d.advances + 1 < 2 ^ 32
  | _ => true

/-- The version goes on as a number modulo `2 ^ 32`. -/
theorem advanceVersion_version (hr : o.mirrorsRemote = false)
    (hv : d.version = (f + d.advances) % 2 ^ 32) :
    (advanceVersion o d).version = (f + (advanceVersion o d).advances) % 2 ^ 32 ∧
      (advanceVersion o d).advances = d.advances + 1 := by
  simp only [advanceVersion, hr, if_false, Bool.false_eq_true]
  refine ⟨?_, trivial⟩
  split_ifs with hwr <;> omega

theorem pending_setReference (hc : ref'.phase = .committing → ref'.changes.isSome →
      d.pending) (hp : (d.setReference r ref').pending) : d.pending := by
  obtain ⟨q, hq, hn⟩ := List.any_eq_true.mp hp
  rcases mem_setReference hq with rfl | ho
  · simp only [Bool.and_eq_true, beq_iff_eq] at hn
    exact hc hn.1 hn.2
  · exact List.any_eq_true.mpr ⟨q, ho, hn⟩

variable [DecidableEq Name]

structure Consistent (f : Nat) (d : Datasource Name V) : Prop where
  tidy : d.Tidy
  version : d.version = (f + d.advances) % 2 ^ 32
  bound : d.advances < 2 ^ 32
  past : ∀ o ∈ d.observed, o.advances ≤ d.advances ∧ o.version = (f + o.advances) % 2 ^ 32
  present : ∀ o ∈ d.observed, o.advances = d.advances →
    d.pending = false ∧ ∀ name, o.fields.at name = d.values.at name
  agree : ∀ o ∈ d.observed, ∀ o' ∈ d.observed, o.advances = o'.advances →
    ∀ name, o.fields.at name = o'.fields.at name

theorem initial_consistent (hf : f < 2 ^ 32) (fields : Fields Name V) :
    Consistent f (initial f fields) := by
  refine ⟨initial_tidy f fields, ?_, ?_, ?_, ?_, ?_⟩
  · exact (Nat.mod_eq_of_lt hf).symm
  · exact Nat.two_pow_pos 32
  · intro o ho
    cases ho
  · intro o ho
    cases ho
  · intro o ho
    cases ho

/-- Nothing is observed, and no commit is started. -/
theorem Consistent.keep (h : d.Consistent f) (ht : d'.Tidy) (hv : d'.version = d.version)
    (ha : d'.advances = d.advances) (hob : d'.observed = d.observed) (hp : d'.pending → d.pending)
    (hvl : d'.values = d.values) : d'.Consistent f := by
  refine ⟨ht, ?_, ?_, ?_, ?_, ?_⟩
  · rw [hv, ha]
    exact h.version
  · rw [ha]
    exact h.bound
  · rw [hob, ha]
    exact h.past
  · rw [hob, ha, hvl]
    intro o ho heq
    obtain ⟨hno, hf⟩ := h.present o ho heq
    refine ⟨?_, hf⟩
    by_contra hnot
    rw [hp (by simpa using hnot)] at hno
    cases hno
  · rw [hob]
    exact h.agree

/-- The version advances; nothing has been observed under the new one. -/
theorem Consistent.advance (h : d.Consistent f) (hr : o.mirrorsRemote = false)
    (hb : d.advances + 1 < 2 ^ 32) (ht : d'.Tidy) (hv : d'.version = (advanceVersion o d).version)
    (ha : d'.advances = (advanceVersion o d).advances)
    (hob : d'.observed = d.observed) : d'.Consistent f := by
  obtain ⟨hv', ha'⟩ := advanceVersion_version hr h.version
  refine ⟨ht, ?_, ?_, ?_, ?_, ?_⟩
  · rw [hv, ha]
    exact hv'
  · rw [ha, ha']
    exact hb
  · rw [hob, ha, ha']
    intro o ho
    obtain ⟨hle, heq⟩ := h.past o ho
    exact ⟨Nat.le_succ_of_le hle, heq⟩
  · rw [hob, ha, ha']
    intro o ho heq
    have hle := (h.past o ho).1
    omega
  · rw [hob]
    exact h.agree

theorem Consistent.release (h : d.Consistent f) (hr : d.references[r]? = some ref) :
    (d.setReference r { ref with
      values := d.values, baseValues := none, phase := .shared }).Consistent f := by
  refine h.keep (h.tidy.release hr) rfl rfl rfl ?_ rfl
  intro hp
  exact pending_setReference (fun he => (by cases he)) hp

theorem Consistent.observe (h : d.Consistent f) (hp : d.pending = false) (hm : ref ∈ d.references)
    (hi : ref.values.id = d.values.id) : (d.observe ref).Consistent f := by
  have hv := h.tidy.same ref hm hi
  have hc : ∀ o ∈ (d.observe ref).observed, o ∈ d.observed ∨
      o = { version := d.version, advances := d.advances, fields := d.values.fields } := by
    intro o ho
    rcases mem_concat_cases ho with hl | rfl
    · exact .inl hl
    · rw [hv]
      exact .inr rfl
  refine ⟨h.tidy.congr rfl rfl rfl, h.version, h.bound, ?_, ?_, ?_⟩
  · intro o ho
    rcases hc o ho with hl | rfl
    · exact h.past o hl
    · exact ⟨Nat.le_refl _, h.version⟩
  · intro o ho he
    refine ⟨hp, ?_⟩
    rcases hc o ho with hl | rfl
    · exact (h.present o hl he).2
    · intro name
      rfl
  · intro o ho o' ho' he name
    rcases hc o ho with hl | rfl
    · rcases hc o' ho' with hold' | rfl
      · exact h.agree o hl o' hold' he name
      · exact (h.present o hl he).2 name
    · rcases hc o' ho' with hold' | rfl
      · exact ((h.present o' hold' he.symm).2 name).symm
      · rfl

variable [DecidableEq V] [DeepEqual V]

theorem Consistent.commit1 (h : d.Consistent f) (hrm : o.mirrorsRemote = false)
    (hb : d.advances + 1 < 2 ^ 32) (hr : d.references[r]? = some ref)
    (hh : ref.phase = .exclusive) : (commit1 o d r ref).Consistent f := by
  obtain ⟨ref', hf, -, -, -, hn, hl, -, ho, -, hsa, hd⟩ :=
    commit1_spec o d r ref
  by_cases hc : computePostCommitChanges o d ref = none
  · obtain ⟨hv, ha⟩ := hsa hc
    refine h.keep (h.tidy.commit1 hr hh) hv ha ho ?_ hl
    intro hp
    have hs : (d.setReference r ref').pending := by
      unfold pending at hp ⊢
      rwa [hf] at hp
    refine pending_setReference ?_ hs
    intro _ hm
    rw [hn.mpr hc] at hm
    cases hm
  · obtain ⟨hv, ha⟩ := hd hc
    exact h.advance hrm hb (h.tidy.commit1 hr hh) hv ha ho

/-- Where a commit replaces the values, nothing has been observed under the version. -/
theorem Consistent.commit2 (h : d.Consistent f) (hr : d.references[r]? = some ref)
    (hh : ref.phase = .committing) (hc : ref.changes ≠ none) :
    ((d.commit2 r ref).onShared r).Consistent f := by
  have hp : d.pending := by
    refine List.any_eq_true.mpr ⟨ref, List.mem_of_getElem? hr, ?_⟩
    simp [hh, Option.isSome_iff_ne_none, hc]
  have ht := h.tidy.commit2 hr (by rw [hh]; decide) hc
  obtain ⟨references, he⟩ := commit2_eq (d := d) (r := r) hc
  rw [he] at ht ⊢
  refine ⟨ht, h.version, h.bound, h.past, ?_, h.agree⟩
  intro o ho he
  rw [(h.present o ho he).1] at hp
  cases hp

theorem Consistent.step {e : DatasourceEvent Name V} (hrm : o.mirrorsRemote = false)
    (h : d.Consistent f) (hs : d.settled e) (he : d.step o e = some d') : d'.Consistent f := by
  have ht := h.tidy.step he
  cases happens_of_step h.tidy he with
  | reference s =>
    refine h.keep ht rfl rfl rfl ?_ rfl
    intro hp
    simpa [pending] using hp
  | change hr hmay name value =>
    simp only [Datasource.change] at ht ⊢
    split_ifs at ht ⊢
    · refine h.keep ht rfl rfl rfl ?_ rfl
      intro hp
      exact pending_setReference (d := { d with nextId := d.nextId + 1 })
        (fun hq => (by cases hq)) hp
    · refine h.keep ht rfl rfl rfl ?_ rfl
      intro hp
      exact pending_setReference (fun hq => (by cases hq)) hp
  | refused => exact h
  | commit1 hr hh => exact h.commit1 hrm (by simpa [settled] using hs) hr hh
  | commit2 hr hh hch => exact h.commit2 hr hh hch
  | release hr => exact h.release hr
  | close hr hh =>
    refine h.keep ht rfl rfl rfl ?_ rfl
    intro hp
    refine pending_setReference ?_ hp
    intro hc
    rw [hh] at hc
    cases hc
  | integrateExternalChange hm =>
    rw [hrm] at hm
    cases hm
  | advanceVersion =>
    exact h.advance hrm (by simpa [settled] using hs) ht rfl rfl
      (advanceVersion_keeps o d).2.2.2.1
  | observe hr =>
    simp only [settled, hr, Bool.and_eq_true, Bool.not_eq_true', Option.all_some, beq_iff_eq] at hs
    exact h.observe hs.1 (List.mem_of_getElem? hr) hs.2

theorem run_consistent (hr : o.mirrorsRemote = false) (hf : f < 2 ^ 32) {fields : Fields Name V}
    {s : List (DatasourceEvent Name V)}
    (hu : Run (guarded (step o · ·) (·.settled ·)) (initial f fields) s d) :
    d.Consistent f := by
  refine guarded_invariant (I := Consistent f) ?_ hu (initial_consistent hf fields)
  intro d e d' hs ha h
  exact h.step hr hs ha

/-- Of a datasource that manages its version, whatever two settled readers see under one version
has the same value in every field. -/
theorem version_determines_values (hremote : o.mirrorsRemote = false) (hfirst : f < 2 ^ 32)
    {fields : Fields Name V} {events : List (DatasourceEvent Name V)}
    (hrun : Run (guarded (step o · ·) (·.settled ·))
      (initial f fields) events d) : ∀ a ∈ d.observed, ∀ b ∈ d.observed, a.version = b.version →
      ∀ name, a.fields.at name = b.fields.at name := by
  have h := run_consistent hremote hfirst hrun
  intro a ha b hb hv
  obtain ⟨he, hav⟩ := h.past a ha
  obtain ⟨hl, hbv⟩ := h.past b hb
  have hn := h.bound
  refine h.agree a ha b hb ?_
  omega

instance : DeepEqual Nat := ⟨(· == ·)⟩

def twoFields (mirrorsRemote : Bool) : Options Nat Nat where
  mirrorsRemote := mirrorsRemote
  keyedById := mirrorsRemote
  memberNames := [0, 1]
  storeFields := fun name => name < 2
  isMetadataKey := fun name => name == 9
  featuresName := 9
  featuresKey := none

/-- A commit that succeeds and one that fails, with a reader that looks before and after. -/
theorem version_determines_values_settled : ∃ d : Datasource Nat Nat,
    exec (guarded (step (twoFields false) · ·) (·.settled ·))
      (initial 7 [(0, some 0), (1, some 0)])
      [.reference false, .reference false, .observe 1, .assign 0 0 (some 5), .commit1 0,
        .settle 0 true, .observe 1, .assign 0 1 (some 6), .commit1 0, .settle 0 false, .observe 1,
        .observe 1] = some d ∧ d.observed.map (·.version) = [7, 8, 9, 9] ∧
    ∀ a ∈ d.observed, ∀ b ∈ d.observed, a.version = b.version →
      ∀ name, a.fields.at name = b.fields.at name := by
  refine exec_and_of_run (P := fun d => d.observed.map (·.version) = [7, 8, 9, 9])
    ⟨_, rfl, by decide⟩ ?_
  intro d hu hv
  exact ⟨hv, version_determines_values rfl (by decide) hu⟩

/-- A reader looks while the store is writing, and again after the commit. -/
theorem version_shows_two_values : ∃ d : Datasource Nat Nat,
    exec (step (twoFields false) · ·) (initial 7 [(0, some 0), (1, some 0)])
      [.reference false, .reference false, .assign 0 0 (some 5), .commit1 0, .observe 1,
        .settle 0 true, .observe 1] = some d ∧
    d.observed.map (fun seen => (seen.version, seen.fields.at 0)) = [(8, some 0), (8, some 5)] :=
  ⟨_, rfl, by decide⟩

/-- A session that has changed something works on an object that nobody else has, while every other
session is shared, and a live one without a snapshot reads the canonical values. -/
theorem writer_is_alone {fields : Fields Name V} {events : List (DatasourceEvent Name V)}
    (hrun : Run (step o · ·) (initial f fields) events d) (i : Nat)
    {ref : RootReference Name V} (href : d.references[i]? = some ref) :
    (ref.phase ≠ .shared → ref.values.id ≠ d.values.id ∧
      ∀ (j : Nat) (other : RootReference Name V), d.references[j]? = some other → j ≠ i →
        other.values.id ≠ ref.values.id ∧ other.phase = .shared) ∧
    (ref.phase = .shared → ref.snapshot = false → ref.expired = false → ref.values = d.values) := by
  have ht := run_invariant (I := Tidy) (fun _ _ _ hs h => h.step hs) hrun (initial_tidy ..)
  refine ⟨ht.cloned i ref href, fun hp hs he => ?_⟩
  have hm := List.mem_of_getElem? href
  exact ht.same ref hm (ht.live ref hm hp hs he)

theorem writer_is_alone_two : ∃ d : Datasource Nat Nat, exec (step (twoFields false) · ·)
      (initial 7 [(0, some 0)])
      [.reference false, .reference false, .assign 0 0 (some 5)] = some d ∧
    ∀ other ∈ d.references[1]?, other.values = d.values := by
  refine exec_and_of_run (P := fun d => ∀ other ∈ d.references[1]?, other.phase = .shared ∧
    other.snapshot = false ∧ other.expired = false) ⟨_, rfl, by rintro _ ⟨⟩; decide⟩ ?_
  intro d hu hp other ho
  obtain ⟨hs, hn, he⟩ := hp other ho
  exact (writer_is_alone hu 1 ho).2 hs hn he

end Datasource

end MatterJs.State
