import MatterJs.Events.OccurrenceIndex
import MatterJs.Events.EventNumbers
import Mathlib.Data.List.Perm.Basic

/-!
# Iterations of the occurrence manager

An iteration walks over the index by position. It yields every occurrence that stays in the
index as long as nothing disturbs the entries it has passed: an entry is removed only behind
the position of every iteration, no cull starts while one is under way, and the writes
complete in number order.
-/
namespace MatterJs.Events

open TransitionSystem IndexedList InsertionMap EventStore List Prod OccurrenceSummary Nat

variable {Payload : Type}

/-! ### The entries passed -/

/-- How many entries of the index an iteration has passed, the one it reads included. -/
def Phase.position : Phase → Option Nat
  | .reading i _ => some (i + 1)
  | .yielded i => some (i + 1)
  | _ => none

namespace Iteration

variable (iteration : Iteration Payload)

/-- The least number the iteration is asked for. -/
def least : Nat := iteration.eventMin.getD 0

/-- The numbers yielded, and the one that is being read. -/
def passed : List Nat :=
  iteration.yields.map fst ++
    match iteration.phase with
    | .reading _ eventNumber => [eventNumber]
    | _ => []

end Iteration

/-- The numbers before `start` are below `least`, those from `start` on are not, and the position
lies between `start` and the end. -/
structure Spans (numbers : List Nat) (least start position : Nat) : Prop where
  start_le : start ≤ position
  le_length : position ≤ numbers.length
  before : ∀ number ∈ numbers.take start, number < least
  after : ∀ number ∈ numbers.drop start, least ≤ number

namespace Spans

variable {ns : List Nat} {l s ps n : Nat}

/-- Behind the greatest number nothing passed changes. -/
theorem append (h : Spans ns l s ps) (hs : s < ps) (hg : ∀ t ∈ ns, t < n) :
    Spans (ns ++ [n]) l s ps := by
  have hl : s < ns.length := lt_of_lt_of_le hs h.le_length
  refine ⟨h.start_le, ?_, ?_, ?_⟩
  · rw [length_append]
    exact le_add_right_of_le h.le_length
  · rw [take_append_of_le_length (le_of_lt hl)]
    exact h.before
  · rw [drop_append_of_le_length (le_of_lt hl)]
    intro t ho
    rcases mem_concat_cases ho with ho | rfl
    · exact h.after t ho
    · -- The entry at `start` is wanted, and the new number is above it.
      have hw : l ≤ ns[s] :=
        h.after _ (mem_drop_iff_getElem.mpr ⟨0, by simpa using hl, by simp⟩)
      exact le_of_lt (lt_of_le_of_lt hw (hg _ (getElem_mem hl)))

theorem eraseIdx (h : Spans ns l s ps) {ie : Nat} (hi : ps ≤ ie) (hl : ie < ns.length) :
    Spans (ns.eraseIdx ie) l s ps := by
  have hs : s ≤ ie := le_trans h.start_le hi
  refine ⟨h.start_le, ?_, ?_, ?_⟩
  · rw [length_eraseIdx_of_lt hl]
    omega
  · rw [take_eraseIdx_eq_take_of_le _ _ _ hs]
    exact h.before
  · intro u hm
    rw [eraseIdx_eq_take_drop_succ, drop_append_of_le_length (by simp; omega), drop_take] at hm
    rcases mem_append.mp hm with hm | hm
    · exact h.after u (mem_of_mem_take hm)
    · refine h.after u ?_
      rw [show ie + 1 = s + (ie + 1 - s) by omega, ← drop_drop] at hm
      exact mem_of_mem_drop hm

/-- What lies between the start and the position. -/
def between (numbers : List Nat) (start position : Nat) : List Nat :=
  (numbers.take position).drop start

theorem sublist_between : (between ns s ps).Sublist ns :=
  (drop_sublist ..).trans (take_sublist ..)

section
variable (h : Spans ns l s ps)
include h

theorem wanted_between : ∀ n ∈ between ns s ps, l ≤ n := by
  intro n hm
  rw [between, drop_take] at hm
  exact h.after n (mem_of_mem_take hm)

theorem between_succ (hn : ns[ps]? = some n) : between ns s (ps + 1) = between ns s ps ++ [n] := by
  rw [between, take_add_one, hn, Option.toList_some,
    drop_append_of_le_length (by simpa using ⟨h.start_le, le_trans h.start_le h.le_length⟩),
    between]

/-- Up to the end it is every wanted number. -/
theorem mem_between_length
    (he : ns.length ≤ ps) (hm : n ∈ ns) (hw : l ≤ n) : n ∈ between ns s ps := by
  rw [between, take_of_length_le he]
  rw [← take_append_drop s ns] at hm
  rcases mem_append.mp hm with hm | hm
  · exact absurd (h.before n hm) (not_lt.mpr hw)
  · exact hm

end

end Spans

/-! ### The invariant -/

/-- What holds of an iteration over an index with the given numbers. -/
structure Iteration.Good (numbers : List Nat) (recorded : List (Nat × Occurrence Payload))
    (iteration : Iteration Payload) : Prop where
  spans : ∀ position, iteration.phase.position = some position →
    ∃ start < position, Spans numbers iteration.least start position ∧
      iteration.passed = Spans.between numbers start position
  sorted : iteration.passed.Pairwise (· < ·)
  wanted : ∀ number ∈ iteration.passed, iteration.least ≤ number
  values : ∀ value ∈ iteration.yields,
    ∃ occurrence, value.2 = some occurrence ∧ (value.1, occurrence) ∈ recorded
  waiting : iteration.phase = .awaitingCull ∨ iteration.phase = .ready → iteration.yields = []
  covered : iteration.phase = .finished →
    ∀ number ∈ iteration.present, iteration.least ≤ number → number ∈ iteration.passed

namespace Iteration.Good

variable {u ns' : List Nat} {r r' : List (Nat × Occurrence Payload)}
  {ir : Iteration Payload}

theorem mono (h : ir.Good u r) (hs : r ⊆ r') : ir.Good u r' :=
  { h with
    values := fun v hv => by
      obtain ⟨o, he, hm⟩ := h.values v hv
      exact ⟨o, he, hs hm⟩ }

/-- The index changes, but not in what the iteration has passed. -/
theorem of_spans (h : ir.Good u r) (hs : ∀ s p, s < p → ir.phase.position = some p →
      Spans u ir.least s p → Spans ns' ir.least s p ∧ ns'.take p = u.take p) : ir.Good ns' r :=
  { h with
    spans := fun p hp => by
      obtain ⟨s, hl, hsp, hps⟩ := h.spans p hp
      obtain ⟨hs', ht⟩ := hs s p hl hp hsp
      exact ⟨s, hl, hs', by rw [hps, Spans.between, Spans.between, ht]⟩ }

/-- A position makes an iteration wait for the entries behind it only. -/
theorem of_passed (s p : Nat) (hor : u.Pairwise (· < ·)) (hsp : Spans u ir.least s p)
    (hps : ir.passed = Spans.between u s p)
    (hs : ir.phase.position = none ∨ ir.phase.position = some p ∧ s < p)
    (hv : ∀ v ∈ ir.yields, ∃ o, v.2 = some o ∧ (v.1, o) ∈ r)
    (hw : ir.phase ≠ .awaitingCull ∧ ir.phase ≠ .ready)
    (hc : ir.phase = .finished → u.length ≤ p ∧ ∀ number ∈ ir.present, number ∈ u) :
    ir.Good u r where
  spans := by
    intro other ho
    rcases hs with hnn | ⟨hm, hl⟩
    · rw [hnn] at ho
      cases ho
    · obtain rfl : p = other := Option.mem_unique hm ho
      exact ⟨s, hl, hsp, hps⟩
  sorted := by
    rw [hps]
    exact hor.sublist Spans.sublist_between
  wanted := by
    rw [hps]
    exact hsp.wanted_between
  values := hv
  waiting := by
    rintro (hp | hp)
    · exact absurd hp hw.1
    · exact absurd hp hw.2
  covered := by
    intro hp number hnm hn
    obtain ⟨he, hpr⟩ := hc hp
    rw [hps]
    exact hsp.mem_between_length he (hpr number hnm) hn

theorem of_no_yields (hy : ir.yields = []) (hh : ir.phase.position = none)
    (hc : ir.phase = .finished → ∀ number ∈ ir.present, number < ir.least) : ir.Good u r := by
  have hp : ir.passed = [] := by
    unfold Iteration.passed
    cases hcr : ir.phase <;> simp_all [Phase.position]
  constructor
  case spans => simp [hh]
  case covered =>
    intro hf number hn hw
    exact absurd (hc hf number hn) (not_lt.mpr hw)
  all_goals simp [hp, hy]

end Iteration.Good

namespace OccurrenceManager

structure Consistent (m : OccurrenceManager Payload) : Prop where
  ordered : m.numbers.Pairwise (· < ·)
  fresh : (m.writes.map fst ++ m.recorded.map fst).Nodup
  below : ∀ number ∈ m.writes.map fst ++ m.recorded.map fst, number < m.nextNumber
  stored : ∀ number ∈ m.numbers, ∃ occurrence,
    InsertionMap.get m.events number = some occurrence ∧ (number, occurrence) ∈ m.recorded
  dead : ∀ number ∈ m.cull ++ m.removals ++ m.deletes,
    number ∉ m.numbers ∧ number ∈ m.recorded.map fst
  iterations : ∀ iteration ∈ m.iterations, iteration.Good m.numbers m.recorded

variable (m : OccurrenceManager Payload) {nm e id i : Nat} {o : Occurrence Payload}
  {it : Iteration Payload}

/-- What an iteration takes for present is in the index until it ends. -/
def Current : Prop :=
  ∀ iteration ∈ m.iterations, iteration.phase ≠ .finished →
    ∀ number ∈ iteration.present, number ∈ m.numbers

/-- Some iteration has passed entries and goes on. -/
def isIterating : Bool :=
  m.iterations.any (·.phase.position.isSome)

/-- One more entry makes a cull start. -/
def startsCull : Bool :=
  m.occurrences.length + 1 > m.bufferConfig.maxEventAllowance && m.cull.isEmpty &&
    !m.iteratingValuesInProgress

/-- The condition on an event: a write completes only with a number above the index, and starts
a cull only while no iteration is under way; an entry is removed only where no iteration has
passed. -/
def undisturbed : ManagerEvent Payload → Bool
  | .written index =>
    match m.writes[index]? with
    | some write =>
      m.numbers.all (fun number => number < write.1) && (!m.startsCull || !m.isIterating)
    | none => true
  | .remove number =>
    match m.occurrences.findIdx? (·.number == number) with
    | some index =>
      m.iterations.all (fun iteration => iteration.phase.position.getD 0 ≤ index)
    | none => true
  | _ => true

variable {m}

/-! ### The index and the store -/

namespace Consistent

section
variable (h : m.Consistent)
include h

theorem recorded_of_mem (hm : nm ∈ m.numbers) : nm ∈ m.recorded.map fst := by
  obtain ⟨c, -, hr⟩ := h.stored nm hm
  exact mem_map.mpr ⟨_, hr, rfl⟩

theorem nodup : m.numbers.Nodup := h.ordered.imp ne_of_lt

theorem add (o : Occurrence Payload) : (m.add o).Consistent := by
  have hp : ((m.add o).writes.map fst ++ m.recorded.map fst).Perm
      (m.nextNumber :: (m.writes.map fst ++ m.recorded.map fst)) := by
    simp only [OccurrenceManager.add, map_append, append_assoc]
    exact perm_middle
  refine { h with fresh := ?_, below := ?_ }
  · refine hp.nodup_iff.mpr (nodup_cons.mpr ⟨?_, h.fresh⟩)
    intro hm
    exact lt_irrefl _ (h.below _ hm)
  · intro u hm
    rcases mem_cons.mp (hp.mem_iff.mp hm) with rfl | hm
    · exact lt_succ_self _
    · exact lt_succ_of_lt (h.below u hm)

theorem writeFailed (e : Nat) : { m with writes := m.writes.eraseIdx e }.Consistent := by
  have hs : ((m.writes.eraseIdx e).map fst ++ m.recorded.map fst).Sublist
      (m.writes.map fst ++ m.recorded.map fst) :=
    ((eraseIdx_sublist ..).map fst).append_right _
  exact { h with
    fresh := h.fresh.sublist hs
    below := fun u hm => h.below u (hs.subset hm) }

theorem settle (hd : nm ∉ m.numbers) (s : Bool) : (m.settle nm s).Consistent := by
  cases s with
  | false => exact h
  | true =>
    refine { h with stored := ?_ }
    intro other ho
    have hn : other ≠ nm := fun he => hd (he ▸ ho)
    obtain ⟨c, hg, hr⟩ := h.stored other ho
    exact ⟨c, (get_delete_of_ne _ hn).trans hg, hr⟩

theorem deleted (hd : m.deletes[e]? = some nm) (s : Bool) :
    ({ m with deletes := m.deletes.eraseIdx e }.settle nm s).Consistent := by
  have hm := mem_of_getElem? hd
  have he : { m with deletes := m.deletes.eraseIdx e }.Consistent :=
    { h with
      dead := fun t ho => h.dead t (by
        simp only [mem_append] at ho ⊢
        exact ho.imp_right mem_of_mem_eraseIdx) }
  exact he.settle (h.dead nm (by simp [hm])).1 s

theorem culled (hc : m.cull[e]? = some nm) (s : Bool) :
    ({ m with cull := m.cull.eraseIdx e }.settle nm s).cullSettled.Consistent := by
  have hm := mem_of_getElem? hc
  have he : { m with cull := m.cull.eraseIdx e }.Consistent :=
    { h with
      dead := fun t ho => h.dead t (by
        simp only [mem_append] at ho ⊢
        exact ho.imp_left (Or.imp_left mem_of_mem_eraseIdx)) }
  have hs := he.settle (h.dead nm (by simp [hm])).1 s
  unfold OccurrenceManager.cullSettled
  split_ifs with hem
  · refine { hs with dead := ?_, iterations := ?_ }
    · intro t ho
      refine hs.dead t ?_
      simp only [mem_append] at ho ⊢
      tauto
    · intro it hi
      obtain ⟨it, hm, rfl⟩ := mem_map.mp hi
      have hg := hs.iterations it hm
      split_ifs with hp
      · exact .of_no_yields (hg.waiting (.inl hp)) rfl (by simp)
      · exact hg
  · exact hs

theorem startCull (hl : m.cull = [] → m.iteratingValuesInProgress = false → m.isIterating = false) :
    m.startCull.Consistent := by
  unfold OccurrenceManager.startCull
  by_cases hsk : (!m.cull.isEmpty || m.iteratingValuesInProgress)
  · rw [if_pos hsk]
    exact h
  · rw [if_neg hsk]
    simp only [Bool.or_eq_true, Bool.not_eq_true', not_or, Bool.not_eq_false,
      Bool.not_eq_true, List.isEmpty_iff] at hsk
    obtain ⟨hs, hpr⟩ := dropOldOccurrences_spec m.bufferConfig m.occurrences
    generalize dropOldOccurrences m.bufferConfig m.occurrences = dropped at hs hpr
    have hn : (dropped.1.map number).Sublist m.numbers :=
      hs.map _
    refine { h with ordered := ?_, stored := ?_, dead := ?_, iterations := ?_ }
    · exact h.ordered.sublist hn
    · exact fun u hm => h.stored u (hn.subset hm)
    · intro u hm
      simp only [mem_append] at hm
      rcases hm with (hm | hm) | hm
      · have hd := (nodup_append.mp (hpr.nodup_iff.mpr h.nodup)).2.2
        refine ⟨fun hkp => hd u hm u hkp rfl, ?_⟩
        exact h.recorded_of_mem (hpr.subset (mem_append_left _ hm))
      · have hdd := h.dead u (by simp [hm])
        exact ⟨fun hkp => hdd.1 (hn.subset hkp), hdd.2⟩
      · have hdd := h.dead u (by simp [hm])
        exact ⟨fun hkp => hdd.1 (hn.subset hkp), hdd.2⟩
    · intro t hi
      refine (h.iterations t hi).of_spans ?_
      intro s p _ hp
      have hnn := List.any_eq_false.mp (hl hsk.1 hsk.2) t hi
      simp [hp] at hnn

theorem written (hwr : m.writes[e]? = some (nm, o))
    (hg : ∀ t ∈ m.numbers, t < nm) (hl : m.startsCull → m.isIterating = false) :
    ({ m with writes := m.writes.eraseIdx e }.written nm o).Consistent := by
  obtain ⟨hin, hq⟩ := List.getElem?_eq_some_iff.mp hwr
  have hpr : ((m.writes.eraseIdx e).map fst ++ (m.recorded ++ [(nm, o)]).map fst).Perm
      (m.writes.map fst ++ m.recorded.map fst) := by
    have hw := (List.getElem_cons_eraseIdx_perm hin).map fst
    rw [hq] at hw
    refine List.Perm.trans ?_ (hw.append_right _)
    simp only [map_append, ← append_assoc]
    exact perm_append_singleton ..
  have hn : nm ∉ m.recorded.map fst := by
    intro hm
    have hw : nm ∈ m.writes.map fst :=
      mem_map.mpr ⟨_, mem_of_getElem? hwr, rfl⟩
    exact (nodup_append.mp h.fresh).2.2 nm hw nm hm rfl
  have hp : Consistent
      { m with
        writes := m.writes.eraseIdx e
        events := set m.events nm o
        recorded := m.recorded ++ [(nm, o)]
        occurrences := m.occurrences ++ [o.summary nm] } := by
    have hnm : (m.occurrences ++ [o.summary nm]).map number = m.numbers ++ [nm] := by
      simp [numbers, Occurrence.summary]
    constructor
    case ordered =>
      simp only [numbers, hnm]
      refine pairwise_append.mpr ⟨h.ordered, pairwise_singleton .., ?_⟩
      intro t ho _ hm
      rw [mem_singleton.mp hm]
      exact hg t ho
    case fresh => exact hpr.nodup_iff.mpr h.fresh
    case below => exact fun t ho => h.below t (hpr.mem_iff.mp ho)
    case stored =>
      intro t ho
      simp only [numbers, hnm] at ho
      rcases mem_concat_cases ho with ho | rfl
      · obtain ⟨value, he, hr⟩ := h.stored t ho
        have hne : t ≠ nm := fun hq => hn (hq ▸ h.recorded_of_mem ho)
        exact ⟨value, (get_set_of_ne _ _ hne).trans he, mem_append_left _ hr⟩
      · exact ⟨o, InsertionMap.get_set_self .., by simp⟩
    case dead =>
      intro t ho
      obtain ⟨hd, hr⟩ := h.dead t ho
      simp only [numbers, hnm]
      refine ⟨?_, by simpa using .inl (by simpa using hr)⟩
      intro hm
      rcases mem_append.mp hm with hm | hm
      · exact hd hm
      · exact hn (mem_singleton.mp hm ▸ hr)
    case iterations =>
      intro it hi
      have hgd := (h.iterations it hi).mono
        (subset_append_left m.recorded [(nm, o)])
      simp only [numbers, hnm]
      refine hgd.of_spans ?_
      intro s p ht _ hs
      exact ⟨hs.append ht hg, take_append_of_le_length hs.le_length⟩
  unfold OccurrenceManager.written
  simp only
  split_ifs with hfl
  · refine hp.startCull ?_
    intro hc hf
    refine hl ?_
    simp only [length_append, length_singleton] at hfl
    simp only at hc hf
    simp [startsCull, hc, hf, hfl]
  · exact hp

theorem remove (hu : m.undisturbed (.remove nm)) : (m.remove nm).Consistent := by
  unfold OccurrenceManager.remove
  cases hf : m.occurrences.findIdx? (·.number == nm) with
  | none => exact h
  | some ie =>
    simp only [undisturbed, hf, all_eq_true, decide_eq_true_eq] at hu
    obtain ⟨hin, hnu, -⟩ := findIdx?_eq_some_iff_getElem.mp hf
    have hl : ie < m.numbers.length := by simpa [numbers] using hin
    have he : m.numbers[ie] = nm := by simpa [numbers] using hnu
    have hn : (m.occurrences.eraseIdx ie).map number =
        m.numbers.eraseIdx ie := (eraseIdx_map ..).symm
    have hs : (m.numbers.eraseIdx ie).Sublist m.numbers := eraseIdx_sublist ..
    have hg : nm ∉ m.numbers.eraseIdx ie := by
      have hpr := List.getElem_cons_eraseIdx_perm hl
      rw [he] at hpr
      exact (nodup_cons.mp (hpr.nodup_iff.mpr h.nodup)).1
    have hrc : nm ∈ m.recorded.map fst :=
      h.recorded_of_mem (he ▸ getElem_mem hl)
    -- The same for the deletion that is issued now and the one that waits for the cull.
    have hr : ∀ removals deletes : List Nat,
        (∀ t ∈ removals ++ deletes, t ∈ m.removals ++ m.deletes ∨ t = nm) →
        Consistent { m with occurrences := m.occurrences.eraseIdx ie, removals, deletes } := by
      intro removals deletes hq
      constructor
      case ordered =>
        simp only [numbers, hn]
        exact h.ordered.sublist hs
      case fresh => exact h.fresh
      case below => exact h.below
      case stored =>
        simp only [numbers, hn]
        exact fun t ho => h.stored t (hs.subset ho)
      case dead =>
        intro t ho
        simp only [numbers, hn]
        have hc : t ∈ m.cull ++ m.removals ++ m.deletes ∨ t = nm := by
          simp only [append_assoc, mem_append] at ho hq ⊢
          rcases ho with hcl | hrs
          · exact .inl (.inl hcl)
          · exact (hq t hrs).imp_left .inr
        rcases hc with hd | rfl
        · exact ⟨fun hm => (h.dead t hd).1 (hs.subset hm), (h.dead t hd).2⟩
        · exact ⟨hg, hrc⟩
      case iterations =>
        intro it hi
        simp only [numbers, hn]
        refine (h.iterations it hi).of_spans ?_
        intro s p _ hp hsp
        have hle := hu it hi
        rw [hp, Option.getD_some] at hle
        exact ⟨hsp.eraseIdx hle hl, take_eraseIdx_eq_take_of_le _ _ _ hle⟩
    simp only
    split_ifs with hcl
    · exact hr m.removals (m.deletes ++ [nm]) (by simp; tauto)
    · exact hr (m.removals ++ [nm]) m.deletes (by simp; tauto)

end

end Consistent

/-! ### The steps of an iteration -/

namespace Consistent

theorem setIteration (h : m.Consistent) (id : Nat) (flag : Bool)
    (hg : it.Good m.numbers m.recorded) :
    { m with
      iteratingValuesInProgress := flag
      iterations := m.iterations.set id it }.Consistent :=
  { h with
    iterations := fun t ho => by
      rcases mem_or_eq_of_mem_set ho with ho | rfl
      · exact h.iterations t ho
      · exact hg }

/-- The head of the loop, with everything from the start up to the position yielded. -/
theorem visit (h : m.Consistent) (id : Nat) {s pi : Nat} (hs : Spans m.numbers it.least s pi)
    (hy : it.yields.map fst = Spans.between m.numbers s pi)
    (hv : ∀ v ∈ it.yields, ∃ o, v.2 = some o ∧ (v.1, o) ∈ m.recorded)
    (hp : ∀ number ∈ it.present, number ∈ m.numbers) : (m.visit id it pi).Consistent := by
  unfold OccurrenceManager.visit
  cases he : m.occurrences[pi]? with
  | some entry =>
    obtain ⟨ht, -⟩ := List.getElem?_eq_some_iff.mp he
    have hm : m.numbers[pi]? = some entry.number := by simp [numbers, he]
    have hl : pi + 1 ≤ m.numbers.length := by
      rw [numbers, List.length_map]
      exact ht
    refine h.setIteration id m.iteratingValuesInProgress ?_
    refine .of_passed s (pi + 1) h.ordered
      ⟨le_succ_of_le hs.start_le, hl, hs.before, hs.after⟩
      ?_ (.inr ⟨rfl, lt_succ_of_le hs.start_le⟩) hv (by simp) (by simp)
    rw [hs.between_succ hm, ← hy]
    rfl
  | none =>
    have hn : m.numbers.length ≤ pi := by
      simpa [numbers] using getElem?_eq_none_iff.mp he
    refine h.setIteration id false ?_
    refine .of_passed s pi h.ordered hs ?_ (.inl rfl) hv (by simp) (fun _ => ⟨hn, hp⟩)
    simpa [Iteration.passed] using hy

theorem numberAt_eq {i : Nat} (hi : i < m.numbers.length) :
    numberAt m.occurrences i = m.numbers[i] := by
  rw [numbers, List.length_map] at hi
  simp [numberAt, numbers, hi]

/-- Where an iteration starts, the index splits at its least number. -/
theorem startIndex_spec (h : m.Consistent) (e : Option Nat) :
    match m.startIndex e with
    | none => ∀ number ∈ m.numbers, number < e.getD 0
    | some sa => Spans m.numbers (e.getD 0) sa sa := by
  cases e with
  | none => exact ⟨le_refl _, zero_le _, by simp, by simp⟩
  | some e =>
    have hl : m.numbers.length = m.occurrences.length := List.length_map _
    have hp := findMinEventNumberIndex_spec h.ordered e
    simp only [startIndex]
    cases hs : findMinEventNumberIndex m.occurrences e with
    | none =>
      rw [hs] at hp
      intro number hm
      obtain ⟨i, hi, rfl⟩ := getElem_of_mem hm
      rw [← numberAt_eq hi]
      exact hp i (hl ▸ hi)
    | some sa =>
      rw [hs] at hp
      obtain ⟨he, hb, ha⟩ := hp
      refine ⟨le_refl _, hl.symm ▸ he, ?_, ?_⟩
      · intro number hm
        obtain ⟨i, hi, rfl⟩ := mem_take_iff_getElem.mp hm
        rw [← numberAt_eq (by omega)]
        exact hb i (by omega)
      · intro number hm
        obtain ⟨i, hi, rfl⟩ := mem_drop_iff_getElem.mp hm
        rw [← numberAt_eq (by omega)]
        exact ha _ (Nat.le_add_right ..) (by omega)

theorem begin (h : m.Consistent) (id : Nat) (hy : it.yields = [])
    (hp : ∀ number ∈ it.present, number ∈ m.numbers) : (m.begin id it).Consistent := by
  have hsp := h.startIndex_spec it.eventMin
  unfold OccurrenceManager.begin
  cases hs : m.startIndex it.eventMin with
  | none =>
    rw [hs] at hsp
    refine h.setIteration id m.iteratingValuesInProgress ?_
    exact .of_no_yields hy rfl (fun _ number hn => hsp number (hp number hn))
  | some s =>
    rw [hs] at hsp
    have hf : { m with iteratingValuesInProgress := true }.Consistent := { h with }
    refine hf.visit id hsp ?_ (by simp [hy]) hp
    simp [hy, Spans.between]

theorem get (h : m.Consistent) (eventMin : Option Nat) : (m.get eventMin).Consistent := by
  have hs : Consistent
      { m with iterations := m.iterations ++
          [{ eventMin, phase := .awaitingCull, present := m.numbers }] } :=
    { h with
      iterations := fun t hi => by
        rcases mem_concat_cases hi with ho | rfl
        · exact h.iterations t ho
        · exact .of_no_yields rfl rfl (by simp) }
  unfold OccurrenceManager.get
  split_ifs with hc
  · exact hs.begin _ rfl (fun u hn => hn)
  · exact hs

section
variable (h : m.Consistent)
include h

theorem read (hi : m.iterations[id]? = some it) (hp : it.phase = .reading i e) :
    Consistent { m with
      iterations := m.iterations.set id
        { it with
          phase := .yielded i
          yields := it.yields ++
            [(e, InsertionMap.get m.events e)] } } := by
  have hg := h.iterations it (mem_of_getElem? hi)
  obtain ⟨s, hl, hsp, hs⟩ := hg.spans (i + 1) (by simp [hp, Phase.position])
  have hm : e ∈ m.numbers := by
    refine Spans.sublist_between.subset (?_ : _ ∈ Spans.between m.numbers s (i + 1))
    rw [← hs]
    simp [Iteration.passed, hp]
  obtain ⟨c, he, hr⟩ := h.stored e hm
  refine h.setIteration id m.iteratingValuesInProgress ?_
  refine .of_passed s (i + 1) h.ordered hsp ?_ (.inr ⟨rfl, hl⟩) ?_ (by simp) (by simp)
  · rw [← hs]
    simp [Iteration.passed, hp]
  · intro value hv
    rcases mem_concat_cases hv with ho | rfl
    · exact hg.values value ho
    · exact ⟨c, he, hr⟩

theorem next (hc : m.Current) (hi : m.iterations[id]? = some it)
    (hp : it.phase = .yielded i) : (m.visit id it (i + 1)).Consistent := by
  have hm := mem_of_getElem? hi
  have hg := h.iterations it hm
  obtain ⟨s, -, hs, hps⟩ := hg.spans (i + 1) (by simp [hp, Phase.position])
  refine h.visit id hs ?_ hg.values (hc it hm (by simp [hp]))
  simpa [Iteration.passed, hp] using hps

theorem leave (hi : m.iterations[id]? = some it) (hh : it.phase = .yielded i) :
    Consistent { m with
      iteratingValuesInProgress := false
      iterations := m.iterations.set id { it with phase := .left } } := by
  have hg := h.iterations it (mem_of_getElem? hi)
  have hp : { it with phase := .left }.passed = it.passed := by
    simp [Iteration.passed, hh]
  refine h.setIteration id false ?_
  exact {
    spans := by simp [Phase.position]
    sorted := hp ▸ hg.sorted
    wanted := hp ▸ hg.wanted
    values := hg.values
    waiting := by simp
    covered := by simp }

theorem act {m' : OccurrenceManager Payload} {v : ManagerEvent Payload}
    (hc : m.Current) (hu : m.undisturbed v) (ha : m.act v = some m') : m'.Consistent := by
  cases v with
  | add c =>
    cases ha
    exact h.add c
  | written e =>
    obtain ⟨⟨u, c⟩, hw, rfl⟩ := Option.map_eq_some_iff.mp ha
    simp only [undisturbed, hw, Bool.and_eq_true, all_eq_true, decide_eq_true_eq] at hu
    refine h.written hw hu.1 ?_
    intro hs
    simpa [hs] using hu.2
  | writeFailed e =>
    obtain ⟨write, -, rfl⟩ := Option.map_eq_some_iff.mp ha
    exact h.writeFailed e
  | remove u =>
    cases ha
    exact h.remove hu
  | culled e s =>
    obtain ⟨u, hl, rfl⟩ := Option.map_eq_some_iff.mp ha
    exact h.culled hl s
  | deleted e s =>
    obtain ⟨u, hd, rfl⟩ := Option.map_eq_some_iff.mp ha
    exact h.deleted hd s
  | get em =>
    cases ha
    exact h.get em
  | resume id =>
    simp only [OccurrenceManager.act] at ha
    split at ha
    · rename_i t hi
      split_ifs at ha with hr
      cases ha
      have hm := mem_of_getElem? hi
      exact h.begin id ((h.iterations t hm).waiting (.inr hr))
        (hc t hm (by simp [hr]))
    · cases ha
  | read id =>
    simp only [OccurrenceManager.act] at ha
    split at ha
    · rename_i t hi
      split at ha
      · rename_i i en hp
        cases ha
        exact h.read hi hp
      · cases ha
    · cases ha
  | next id =>
    simp only [OccurrenceManager.act] at ha
    split at ha
    · rename_i t hi
      split at ha
      · rename_i i hp
        cases ha
        exact h.next hc hi hp
      · cases ha
    · cases ha
  | leave id =>
    simp only [OccurrenceManager.act] at ha
    split at ha
    · rename_i t hi
      split at ha
      · rename_i i hp
        cases ha
        exact h.leave hi hp
      · cases ha
    · cases ha

theorem keepPresent : m.keepPresent.Consistent := by
  refine { h with iterations := ?_ }
  intro t hi
  obtain ⟨t, hm, rfl⟩ := mem_map.mp hi
  have hg := h.iterations t hm
  split_ifs with hp
  · exact hg
  · exact { hg with covered := fun hf => absurd hf hp }

end

theorem current_keepPresent (m : OccurrenceManager Payload) : m.keepPresent.Current := by
  intro t hi
  obtain ⟨t, hm, rfl⟩ := mem_map.mp hi
  split_ifs with hp
  · exact fun he => absurd hp he
  · intro _ u hn
    have hm : u ∈ m.numbers := by simpa using (mem_filter.mp hn).2
    exact hm

end Consistent

/-! ### Whole runs -/

theorem keys_below_load (s : Storage Payload) (t : StoreType) :
    ∀ number ∈ (load s t).occurrences.map fst, number < (load s t).nextNumber := by
  intro number hm
  cases t with
  | volatile b => simp [EventStore.load, EventStore.occurrences, VolatileEventStore.load] at hm
  | nonvolatile => exact eventId_lt_nextNumber hm

theorem keys_nodup_load {s : Storage Payload} (hy : s.eventIds.Nodup)
    (t : StoreType) : ((load s t).occurrences.map fst).Nodup := by
  cases t with
  | volatile b => exact nodup_nil
  | nonvolatile => exact hy

/-- The manager over a store with one occurrence under each number. -/
theorem consistent_create (bufferConfig : BufferConfig) {s : EventStore Payload}
    (hy : (s.occurrences.map fst).Nodup)
    (hb : ∀ number ∈ s.occurrences.map fst, number < s.nextNumber) :
    (create bufferConfig s).Consistent ∧ (create bufferConfig s).Current := by
  set ie := s.occurrences.map (fun event => event.2.summary event.1) with hi
  have hn : ie.map number = s.occurrences.map fst := by
    simp [hi, Occurrence.summary]
  have hp := (ie.perm_insertionSort (fun a b => a.number ≤ b.number)).map
    number
  rw [hn] at hp
  have hl : Consistent
      { bufferConfig
        events := s.occurrences
        nextNumber := s.nextNumber
        recorded := s.occurrences
        occurrences := ie.insertionSort (fun a b => a.number ≤ b.number) } := by
    constructor
    case ordered => exact ordered_insertionSort (hn ▸ hy)
    case fresh => simpa using hy
    case below => simpa using hb
    case stored =>
      intro number hm
      obtain ⟨⟨number, c⟩, he, rfl⟩ := mem_map.mp (hp.mem_iff.mp hm)
      exact ⟨c, get_of_mem hy he, he⟩
    case dead => simp
    case iterations => simp
  unfold create
  simp only [← hi]
  split_ifs
  · refine ⟨hl.startCull (fun _ _ => rfl), ?_⟩
    unfold OccurrenceManager.startCull
    split_ifs
    · simp [Current]
    · simp [Current]
  · exact ⟨hl, by simp [Current]⟩

/-- In every run in which no event disturbs the iterations, each of them yields recorded
occurrences from its least number on in strictly increasing number order, and, when it has run
to its end, every one that was in the index from its start to its end. -/
theorem iterations_complete (bufferConfig : BufferConfig) (storage : Storage Payload)
    (type : StoreType) (hkeys : storage.eventIds.Nodup) (events : List (ManagerEvent Payload))
    (m : OccurrenceManager Payload) (hrun : Run (guarded step (·.undisturbed ·))
      (create bufferConfig (load storage type)) events m) : ∀ iteration ∈ m.iterations,
      (iteration.yields.map fst).Pairwise (· < ·) ∧
      (∀ value ∈ iteration.yields, iteration.least ≤ value.1 ∧
        ∃ occurrence, value.2 = some occurrence ∧ (value.1, occurrence) ∈ m.recorded) ∧
      (iteration.phase = .finished → ∀ number ∈ iteration.present, iteration.least ≤ number →
        ∃ occurrence, (number, occurrence) ∈ m.recorded ∧
          (number, some occurrence) ∈ iteration.yields) := by
  have hi : m.Consistent ∧ m.Current := by
    refine guarded_invariant (I := fun m => m.Consistent ∧ m.Current) ?_ hrun
      (consistent_create bufferConfig (keys_nodup_load hkeys type) (keys_below_load storage type))
    rintro s event t hu hs ⟨hc, hcr⟩
    obtain ⟨m', ha, rfl⟩ := Option.map_eq_some_iff.mp hs
    exact ⟨(hc.act hcr hu ha).keepPresent, Consistent.current_keepPresent m'⟩
  intro iteration ht
  have hg := hi.1.iterations iteration ht
  have hy : iteration.yields.map fst <+: iteration.passed := prefix_append ..
  refine ⟨hg.sorted.sublist hy.sublist, ?_, ?_⟩
  · intro value hv
    exact ⟨hg.wanted value.1 (hy.subset (mem_map_of_mem hv)), hg.values value hv⟩
  · intro hp number hn hw
    have hm := hg.covered hp number hn hw
    simp only [Iteration.passed, hp, append_nil] at hm
    obtain ⟨⟨number, value⟩, hv, rfl⟩ := mem_map.mp hm
    obtain ⟨occurrence, rfl, hr⟩ := hg.values _ hv
    exact ⟨occurrence, hr, hv⟩

/-- Persisted events with the given numbers. -/
def sampleStorage (numbers : List Nat) : Storage Unit where
  events := numbers.map (fun number => (number, Device.sampleOccurrence))

/-- An iteration from the second of three events on, with a fourth added and removed again
behind it. -/
theorem iterations_complete_removed : ∃ m : OccurrenceManager Unit,
      exec (guarded step (·.undisturbed ·))
        (create .default (load (sampleStorage [1, 2, 3]) .nonvolatile))
        [.get (some 2), .add Device.sampleOccurrence, .read 0, .written 0, .next 0, .remove 4,
         .deleted 0 true, .read 0, .next 0] = some m ∧
      ∃ iteration ∈ m.iterations, iteration.phase = .finished ∧
        iteration.present = [1, 2, 3] ∧ iteration.yields.map fst = [2, 3] ∧
        ∀ number ∈ iteration.present, iteration.least ≤ number →
          ∃ occurrence, (number, occurrence) ∈ m.recorded ∧
            (number, some occurrence) ∈ iteration.yields := by
  refine exec_and_of_run (P := fun m => ∃ iteration ∈ m.iterations, iteration.phase = .finished ∧
    iteration.present = [1, 2, 3] ∧ iteration.yields.map fst = [2, 3])
    ⟨_, rfl, _, mem_singleton.mpr rfl, rfl, rfl, rfl⟩ ?_
  rintro m hu ⟨iteration, hm, hp, hpr, hy⟩
  exact ⟨iteration, hm, hp, hpr, hy,
    (iterations_complete _ _ _ (by decide) _ m hu iteration hm).2.2 hp⟩

/-- The numbers that the first iteration has yielded and those present from its start on. -/
def firstIteration (m : OccurrenceManager Unit) : Option (Phase × List Nat × List Nat) :=
  m.iterations.head?.map (fun iteration =>
    (iteration.phase, iteration.yields.map fst, iteration.present))

/-- An event is skipped when the one just yielded is removed, and when a cull starts because
another iteration has ended; and the numbers come out of order when the later of two writes
completes first. -/
theorem iterations_disturbed :
    ((exec step (create .default (load (sampleStorage [1, 2, 3]) .nonvolatile))
      [.get none, .read 0, .remove 1, .next 0, .read 0, .next 0]).bind firstIteration =
        some (.finished, [1, 3], [2, 3])) ∧
    ((exec step (create ⟨2, 2, 0, 0⟩ (load (sampleStorage [1, 2]) .nonvolatile))
      [.get none, .read 0, .get (some 2), .read 1, .next 1, .add Device.sampleOccurrence,
       .written 0, .next 0, .read 0, .next 0]).bind firstIteration =
        some (.finished, [1, 3], [2])) ∧
    ((exec step (create .default (load (sampleStorage []) .nonvolatile))
      [.add Device.sampleOccurrence, .add Device.sampleOccurrence, .written 1, .written 0,
       .get none, .read 0, .next 0, .read 0, .next 0]).bind firstIteration =
        some (.finished, [2, 1], [2, 1])) := by
  decide

end OccurrenceManager

end MatterJs.Events
