import MatterJs.Foundation.TransitionSystem
import Mathlib.Data.List.Perm.Subperm

/-!
# The pre-commit passes

`#createPreCommitExecutor` calls `preCommit` of one participant after the other until a pass reports
no mutation. The iterator runs over a live set, so that what is added during a pass is part of it.
-/
namespace MatterJs.Transaction

open TransitionSystem IndexedList List

def maxPreCommitCycles : Nat := 5

inductive PreCommitError
  | unsettledState (message : String)
  /-- An error of a hook. -/
  | preCommit

inductive PreCommitOutcome
  /-- The executor returns, and the commit goes on to phase one. -/
  | settled
  | thrown (error : PreCommitError)

structure PreCommitExecutor (P : Type) where
  /-- The participants in the order of the set. -/
  participants : List P
  /-- How many of them the iterator has passed. -/
  position : Nat := 0
  mayHaveMutated : Bool := false
  cycles : Nat := 1
  /-- The participant whose hook runs or is awaited. -/
  current : Option P := none
  outcome : Option PreCommitOutcome := none
  rollbacks : Nat := 0
  /-- The calls of hooks and what they reported, each with its pass. -/
  calls : List (Nat × P) := []
  reports : List (Nat × P × Bool) := []

inductive PreCommitEvent (P : Type)
  /-- The loop goes on with what the iterator gives. -/
  | next
  /-- A participant is added by a hook or while one is awaited. -/
  | addParticipant (participant : P)
  | report (mutated : Bool)
  | fail

namespace PreCommitExecutor

variable {P : Type} (s : PreCommitExecutor P)

def errorRollback (error : PreCommitError) : PreCommitExecutor P :=
  { s with outcome := some (.thrown error), rollbacks := s.rollbacks + 1 }

def nextCycle : PreCommitExecutor P :=
  let s := { s with cycles := s.cycles + 1 }
  if s.cycles > maxPreCommitCycles then
    s.errorRollback (.unsettledState (s!"State has not settled after {maxPreCommitCycles} " ++
      "pre-commit cycles which likely indicates an infinite loop"))
  else { s with mayHaveMutated := false, position := 0 }

def step [DecidableEq P] (s : PreCommitExecutor P) : PreCommitEvent P → Option (PreCommitExecutor P)
  | .next =>
    if s.current = none ∧ s.outcome = none then
      match s.participants[s.position]? with
      | some participant => some { s with
          position := s.position + 1
          current := some participant
          calls := s.calls ++ [(s.cycles, participant)] }
      | none => some (if s.mayHaveMutated then s.nextCycle
          else { s with outcome := some .settled })
    else none
  | .addParticipant participant => s.current.map (fun _ =>
    if participant ∈ s.participants then s
    else { s with participants := s.participants ++ [participant] })
  | .report mutated => s.current.map (fun participant => { s with
      current := none
      mayHaveMutated := s.mayHaveMutated || mutated
      reports := s.reports ++ [(s.cycles, participant, mutated)] })
  | .fail => s.current.map (fun _ => { s with current := none }.errorRollback .preCommit)

/-- What was reported in the pass. -/
def lastPass : List (P × Bool) :=
  (s.reports.filter (·.1 == s.cycles)).map Prod.snd

structure Sound (s : PreCommitExecutor P) : Prop where
  nodup : s.participants.Nodup
  position : s.position ≤ s.participants.length
  calls : s.calls.Nodup
  called : ∀ call ∈ s.calls, 1 ≤ call.1 ∧ call.1 ≤ s.cycles ∧ call.1 ≤ maxPreCommitCycles
  pass : ∀ p, (s.cycles, p) ∈ s.calls → p ∈ s.participants.take s.position
  reported : ∀ report ∈ s.reports, report.1 ≤ s.cycles
  reports : s.lastPass.map Prod.fst ++ s.current.toList = s.participants.take s.position ∨
    s.rollbacks = 1
  mutated : s.mayHaveMutated = s.lastPass.any Prod.snd ∨ s.rollbacks = 1
  cycles : 1 ≤ s.cycles ∧ (s.cycles ≤ maxPreCommitCycles ∨ s.rollbacks = 1)
  running : s.outcome = none → s.rollbacks = 0
  settled : s.outcome = some .settled → s.current = none ∧ s.mayHaveMutated = false ∧
    s.position = s.participants.length ∧ s.rollbacks = 0
  thrown : ∀ e, s.outcome = some (.thrown e) → s.current = none ∧ s.rollbacks = 1 ∧
    (s.cycles ≤ maxPreCommitCycles ↔ e = .preCommit)

variable {s} {t : PreCommitExecutor P} {p : P}

theorem sound_new {a : List P} (h : a.Nodup) : Sound { participants := a } := by
  constructor <;> simp [h, lastPass, maxPreCommitCycles]

theorem notMem_take {l : List P} {i : Nat} (hn : l.Nodup) (h : l[i]? = some p) : p ∉ l.take i := by
  intro hm
  obtain ⟨j, hj, rfl⟩ := mem_take_iff_getElem.mp hm
  have hi := index_unique hn (getElem?_eq_getElem (by omega)) h
  omega

section
variable (h : s.Sound)
include h

/-- The next participant has not been called in the pass. -/
theorem Sound.call (ho : s.outcome = none) (hc : s.current = none)
    (hp : s.participants[s.position]? = some p) : Sound { s with
      position := s.position + 1
      current := some p
      calls := s.calls ++ [(s.cycles, p)] } := by
  have hr := h.running ho
  have hn := notMem_take h.nodup hp
  have hy := h.cycles.2.resolve_right (by omega)
  have ht : s.participants.take (s.position + 1) = s.participants.take s.position ++ [p] := by
    rw [take_add_one, hp]
    rfl
  refine { h with
    position := (List.getElem?_eq_some_iff.mp hp).1
    calls := ?_, called := ?_, pass := ?_, reports := ?_
    settled := by simp [ho], thrown := by simp [ho] }
  · have he : (s.cycles, p) ∉ s.calls := fun hm => hn (h.pass p hm)
    exact List.nodup_append.mpr ⟨h.calls, by simp, by grind⟩
  · intro c hm
    obtain hm | rfl := mem_concat_cases hm
    · exact h.called c hm
    · exact ⟨h.cycles.1, Nat.le_refl _, hy⟩
  · intro q hm
    rw [ht]
    obtain hm | heq := mem_concat_cases hm
    · exact mem_append_left _ (h.pass q hm)
    · cases heq
      simp
  · left
    have := h.reports.resolve_right (by omega)
    simpa [ht, hc, lastPass] using this

theorem Sound.nextCycle (ho : s.outcome = none) (hc : s.current = none) : s.nextCycle.Sound := by
  have hr := h.running ho
  have hl : ∀ {c}, c ∈ s.calls → 1 ≤ c.1 ∧ c.1 ≤ s.cycles + 1 ∧ c.1 ≤ maxPreCommitCycles :=
    fun hm => ⟨(h.called _ hm).1, Nat.le_succ_of_le (h.called _ hm).2.1, (h.called _ hm).2.2⟩
  have ha : ∀ p, (s.cycles + 1, p) ∉ s.calls :=
    fun p hm => Nat.not_succ_le_self _ (h.called _ hm).2.1
  have he : ∀ r ∈ s.reports, r.1 ≤ s.cycles + 1 :=
    fun r hm => Nat.le_succ_of_le (h.reported r hm)
  unfold PreCommitExecutor.nextCycle
  dsimp only
  split_ifs with hm
  · have hr' : s.rollbacks + 1 = 1 := by omega
    refine { h with
      called := fun c => hl, pass := fun p hp => absurd hp (ha p), reported := he
      reports := .inr hr', mutated := .inr hr', cycles := ⟨Nat.le_add_left .., .inr hr'⟩
      running := by simp [errorRollback], settled := by simp [errorRollback], thrown := ?_ }
    rintro e ⟨⟩
    exact ⟨hc, hr', by simpa [errorRollback] using hm⟩
  · have hz : s.reports.filter (·.1 == s.cycles + 1) = [] := by
      rw [filter_eq_nil_iff]
      intro r hm
      have := h.reported r hm
      simp
      omega
    exact { h with
      position := Nat.zero_le _
      called := fun c => hl, pass := fun p hp => absurd hp (ha p), reported := he
      reports := .inl (by simp [lastPass, hz, hc]), mutated := .inl (by simp [lastPass, hz])
      cycles := ⟨Nat.le_add_left .., .inl (Nat.le_of_not_lt hm)⟩
      settled := by simp [ho], thrown := by simp [ho] }

theorem Sound.outcome_of_current (hc : s.current = some p) : s.outcome = none := by
  cases ho : s.outcome with
  | none => rfl
  | some o =>
    cases o with
    | settled => cases hc.symm.trans (h.settled ho).1
    | thrown e => cases hc.symm.trans (h.thrown e ho).1

/-- The passes in which a participant was called are different numbers up to the limit. -/
theorem Sound.count_calls [DecidableEq P] (p : P) :
    (s.calls.map Prod.snd).count p ≤ maxPreCommitCycles := by
  have hf : (s.calls.filter (·.2 == p)).Nodup := h.calls.filter _
  have hn : ((s.calls.filter (·.2 == p)).map Prod.fst).Nodup :=
    hf.map_on fun c hc d hd he => Prod.ext he (by grind)
  have hs : (s.calls.filter (·.2 == p)).map Prod.fst ⊆ List.range' 1 maxPreCommitCycles := by
    intro n hm
    obtain ⟨c, hc, rfl⟩ := mem_map.mp hm
    have := h.called c (mem_of_mem_filter hc)
    rw [mem_range'_1]
    omega
  have hl := (hn.subperm hs).length_le
  rw [length_map, length_range'] at hl
  rwa [List.count, countP_map, countP_eq_length_filter]

theorem Sound.lastPass_settled (ho : s.outcome = some .settled) :
    s.lastPass = s.participants.map (·, false) := by
  obtain ⟨hc, hm, hl, hr⟩ := h.settled ho
  have hp := h.reports.resolve_right (by omega)
  have ha := (h.mutated.resolve_right (by omega)).symm.trans hm
  rw [hc, hl, take_length, Option.toList_none, append_nil] at hp
  rw [← hp, map_map]
  refine (map_id _).symm.trans (map_congr_left fun r hr => ?_)
  exact Prod.ext rfl (by simpa using any_eq_false.mp ha r hr)

end

variable [DecidableEq P]

theorem Sound.step (h : s.Sound) {event : PreCommitEvent P} (hs : s.step event = some t) :
    t.Sound := by
  cases event with
  | next =>
    obtain ⟨he, hs⟩ := Option.ite_none_right_eq_some.mp hs
    cases hp : s.participants[s.position]? with
    | some p =>
      rw [hp] at hs
      cases hs
      exact h.call he.2 he.1 hp
    | none =>
      have hl := Nat.le_antisymm h.position (getElem?_eq_none_iff.mp hp)
      rw [hp] at hs
      cases hs
      split_ifs with hm
      · exact h.nextCycle he.2 he.1
      · have hf : s.mayHaveMutated = false := by simpa using hm
        exact { h with
          running := by simp
          settled := fun _ => ⟨he.1, hf, hl, h.running he.2⟩
          thrown := by simp }
  | addParticipant p =>
    obtain ⟨c, hc, rfl⟩ := Option.map_eq_some_iff.mp hs
    split_ifs with hm
    · exact h
    · have ht : (s.participants ++ [p]).take s.position = s.participants.take s.position :=
        take_append_of_le_length h.position
      refine { h with
        nodup := List.nodup_append.mpr ⟨h.nodup, by simp, by grind⟩
        position := by simpa using Nat.le_succ_of_le h.position
        pass := ht ▸ h.pass
        reports := ht ▸ h.reports
        settled := fun ho => ?_ }
      cases hc.symm.trans (h.settled ho).1
  | report m =>
    obtain ⟨p, hc, rfl⟩ := Option.map_eq_some_iff.mp hs
    have ho : s.outcome = none := h.outcome_of_current hc
    have hr := h.running ho
    refine { h with
      reported := ?_, reports := .inl ?_, mutated := .inl ?_
      settled := by simp [ho], thrown := by simp [ho] }
    · intro r hm
      obtain hm | rfl := mem_concat_cases hm
      · exact h.reported r hm
      · exact Nat.le_refl _
    · have := h.reports.resolve_right (by omega)
      simpa [lastPass, hc] using this
    · have := h.mutated.resolve_right (by omega)
      simp [lastPass, this]
  | fail =>
    obtain ⟨p, hc, rfl⟩ := Option.map_eq_some_iff.mp hs
    have ho : s.outcome = none := h.outcome_of_current hc
    have hr := h.running ho
    have hr' : s.rollbacks + 1 = 1 := by omega
    refine { h with
      reports := .inr hr', mutated := .inr hr', cycles := ⟨h.cycles.1, .inr hr'⟩
      running := by simp [errorRollback], settled := by simp [errorRollback], thrown := ?_ }
    rintro e ⟨⟩
    exact ⟨rfl, hr', by simpa [errorRollback] using h.cycles.2.resolve_right (by omega)⟩

/-- A last pass that reports a mutation ends in the rollback. -/
theorem Sound.unsettled (h : s.Sound) (ht : s.step .next = some t)
    (hc : s.cycles = maxPreCommitCycles) (hp : s.lastPass.map Prod.fst = s.participants)
    (ha : s.lastPass.any Prod.snd) :
    (∃ m, t.outcome = some (.thrown (.unsettledState m))) ∧ t.rollbacks = 1 := by
  obtain ⟨he, ht⟩ := Option.ite_none_right_eq_some.mp ht
  have hr := h.running he.2
  have hm := (h.mutated.resolve_right (by omega)).trans ha
  have hl := congrArg List.length (h.reports.resolve_right (by omega))
  rw [he.1, Option.toList_none, append_nil, hp, length_take] at hl
  rw [getElem?_eq_none (by omega)] at ht
  cases ht
  simp [hm, PreCommitExecutor.nextCycle, hc, errorRollback, hr]

/-- The commit goes on after a pass over all participants in which none reported a mutation. No hook
is called more often than there may be passes. When the last of these reports one, there is one
rollback and the error. -/
theorem preCommit_settles (participants : List P) (hdistinct : participants.Nodup)
    (events : List (PreCommitEvent P)) (s : PreCommitExecutor P)
    (h : Run step { participants := participants } events s) :
    (s.outcome = some .settled → s.lastPass = s.participants.map (·, false) ∧ s.rollbacks = 0) ∧
      (∀ participant, (s.calls.map Prod.snd).count participant ≤ maxPreCommitCycles) ∧
      (∀ t, s.step .next = some t → s.cycles = maxPreCommitCycles →
        s.lastPass.map Prod.fst = s.participants → (∃ report ∈ s.lastPass, report.2) →
        (∃ message, t.outcome = some (.thrown (.unsettledState message))) ∧ t.rollbacks = 1) ∧
      (maxPreCommitCycles < s.cycles → ∃ message,
        s.outcome = some (.thrown (.unsettledState message))) ∧
      (∀ error, s.outcome = some (.thrown error) →
        s.rollbacks = 1 ∧ ∀ event, s.step event = none) := by
  have hs : s.Sound := run_invariant (fun _ _ _ hl hi => hi.step hl) h (sound_new hdistinct)
  refine ⟨fun ho => ⟨hs.lastPass_settled ho, (hs.settled ho).2.2.2⟩, hs.count_calls, ?_, ?_, ?_⟩
  · intro t ht hc hp ⟨r, hm, hr⟩
    exact hs.unsettled ht hc hp (any_eq_true.mpr ⟨r, hm, hr⟩)
  · intro hc
    have hr := hs.cycles.2.resolve_left (by omega)
    cases ho : s.outcome with
    | none => exact absurd (hs.running ho) (by omega)
    | some o =>
      cases o with
      | settled => exact absurd (hs.settled ho).2.2.2 (by omega)
      | thrown e =>
        cases e with
        | unsettledState m => exact ⟨m, rfl⟩
        | preCommit => exact absurd ((hs.thrown _ ho).2.2.mpr rfl) (by omega)
  · intro e ho
    obtain ⟨hc, hr, -⟩ := hs.thrown e ho
    refine ⟨hr, fun v => ?_⟩
    cases v <;> simp [step, hc, ho]

/-- The hook mutates in each pass. -/
def mutating : List (PreCommitEvent Nat) :=
  (List.replicate 5 [.next, .report true, .next]).flatten

theorem preCommit_settles_mutating : ∃ s : PreCommitExecutor Nat,
    exec step { participants := [0] } mutating = some s ∧ s.rollbacks = 1 ∧
      ∃ m, s.outcome = some (.thrown (.unsettledState m)) := by
  refine exec_and_of_run (P := fun s => maxPreCommitCycles < s.cycles)
    ⟨_, rfl, by decide⟩ fun s h hc => ?_
  obtain ⟨-, -, -, ht, hr⟩ := preCommit_settles [0] (by decide) mutating s h
  obtain ⟨m, hm⟩ := ht hc
  exact ⟨(hr _ hm).1, m, hm⟩

end PreCommitExecutor

end MatterJs.Transaction
