import Mathlib.Algebra.Order.Ring.Nat
import Mathlib.Data.List.Nodup
import MatterJs.MessageCounter.Basic

/-!
# Distinctness of outgoing counters

The call that is suspended in the rollover callback reads the counter late.
It returns a value of its own exactly as long as no other call has moved the
counter in the meantime.
-/
namespace MatterJs.MessageCounter

open TransitionSystem List

variable {cfg : Config} {s t : State} {st : Nat}

/-- A resumed call is the newest one: no other call started while it was suspended. -/
def ResumesNewest (s : State) : Action → Prop
  | .resume id => id = s.calls
  | .call | .reject _ => True

instance (s : State) : (a : Action) → Decidable (ResumesNewest s a)
  | .resume id => inferInstanceAs (Decidable (id = s.calls))
  | .call => isTrue trivial
  | .reject _ => isTrue trivial

/-- The position of the counter in an unwrapped count. -/
def unwrapped (cycle value : Nat) : Nat := cycle * 2 ^ 32 + value

/-- Call number `j` moves the unwrapped counter to `start + j`, and what has been
returned belongs to calls that are no longer suspended. -/
structure Invariant (cfg : Config) (start : Nat) (s : State) : Prop where
  position : unwrapped s.wraps s.messageCounter = start + s.calls
  bounded : cfg.onRollover → s.messageCounter ≤ maxCounterValue32Bit
  suspended_le : ∀ i ∈ s.suspended, i ≤ s.calls
  suspended_nodup : s.suspended.Nodup
  origin : ∀ e ∈ s.returned, ∃ j, j ≤ s.calls ∧ j ∉ s.suspended ∧
    unwrapped e.cycle e.value = start + j
  nodup : s.returned.Nodup

theorem invariant_initial (cfg : Config) (r : UInt32) :
    Invariant cfg (initial r).messageCounter (initial r) where
  position := by simp [unwrapped, initial]
  bounded := by
    have hs : (r >>> 4).toNat ≤ r.toNat / 16 := by
      simp [Nat.shiftRight_eq_div_pow]
    have hr : r.toNat < 2 ^ 32 := UInt32.toNat_lt _
    simp only [initial, maxCounterValue32Bit]
    omega
  suspended_le := by simp [initial]
  suspended_nodup := nodup_nil
  origin := by simp [initial]
  nodup := nodup_nil

section

variable (h : Invariant cfg st s)
include h

variable {e : Issued}

theorem fresh_issue (he : unwrapped e.cycle e.value = st + (s.calls + 1)) : e ∉ s.returned := by
  intro hm
  obtain ⟨j, hj, _, hp⟩ := h.origin e hm
  omega

theorem fresh_resume (hn : s.calls ∈ s.suspended) :
    (⟨s.wraps, s.messageCounter⟩ : Issued) ∉ s.returned := by
  intro hm
  obtain ⟨j, _, hj, hp⟩ := h.origin _ hm
  have he := hp.symm.trans h.position
  obtain rfl : j = s.calls := by omega
  exact hj hn

theorem origin_call (he : e ∈ s.returned) {ss : List Nat} (hs : ∀ j ≤ s.calls, j ∈ ss →
    j ∈ s.suspended) : ∃ j, j ≤ s.calls + 1 ∧ j ∉ ss ∧ unwrapped e.cycle e.value = st + j := by
  obtain ⟨j, hj, hn, hp⟩ := h.origin e he
  exact ⟨j, by omega, fun hm => hn (hs j hj hm), hp⟩

theorem not_mem_suspended_succ : s.calls + 1 ∉ s.suspended := by
  intro hm
  have := h.suspended_le _ hm
  omega

theorem invariant_call (hs : step cfg s .call = some t) : Invariant cfg st t := by
  have ho := h.position
  have ha : maxCounterValue32Bit = 4294967295 := rfl
  have hl : ∀ i ∈ s.suspended, i ≤ s.calls + 1 :=
    fun i hi => (h.suspended_le i hi).trans (Nat.le_succ _)
  simp only [unwrapped] at ho
  rcases increment_cases cfg s.messageCounter with
    ⟨hi, hb⟩ | ⟨hi, hb, hr⟩ | ⟨hi, hb, hr⟩ | ⟨hi, hb, hr⟩
  · simp only [step, hi, Bool.false_eq_true, if_false, Option.some.injEq] at hs
    subst t
    have hp : unwrapped s.wraps (s.messageCounter + 1) = st + (s.calls + 1) := by
      simp only [unwrapped]
      omega
    exact ⟨hp, fun _ => hb, hl, h.suspended_nodup, by
      intro e he
      rcases mem_cons.mp he with rfl | he
      · exact ⟨s.calls + 1, le_rfl, not_mem_suspended_succ h, hp⟩
      · exact origin_call h he (fun _ _ hm => hm), nodup_cons.mpr ⟨fresh_issue h hp, h.nodup⟩⟩
  · simp only [step, hi, if_true, Option.some.injEq] at hs
    subst t
    have hb' := h.bounded hr
    have hp : unwrapped (s.wraps + 1) 0 = st + (s.calls + 1) := by
      simp only [unwrapped, Nat.add_zero]
      omega
    exact ⟨hp, fun _ => Nat.zero_le _, hl, h.suspended_nodup, by
      intro e he
      rcases mem_cons.mp he with rfl | he
      · exact ⟨s.calls + 1, le_rfl, not_mem_suspended_succ h, hp⟩
      · exact origin_call h he (fun _ _ hm => hm), nodup_cons.mpr ⟨fresh_issue h hp, h.nodup⟩⟩
  · simp only [step, hi, Option.some.injEq] at hs
    subst t
    refine ⟨by simp only [unwrapped]; omega, fun _ => hb, ?_, ?_, ?_, h.nodup⟩
    · intro i hm
      rcases mem_cons.mp hm with rfl | hm
      · exact le_rfl
      · exact hl i hm
    · exact nodup_cons.mpr ⟨not_mem_suspended_succ h, h.suspended_nodup⟩
    · intro e he
      apply origin_call h he
      intro j hj hm
      rcases mem_cons.mp hm with rfl | hm
      · omega
      · exact hm
  · simp only [step, hi, Option.some.injEq] at hs
    subst t
    refine ⟨by simp only [unwrapped]; omega, ?_, hl, h.suspended_nodup, ?_, h.nodup⟩
    · intro hc
      simp [hr] at hc
    · intro e he
      exact origin_call h he (fun _ _ hm => hm)

/-- Returned calls stay outside a suspension list that only shrinks. -/
theorem origin_erase (id : Nat) (he : e ∈ s.returned) :
    ∃ j, j ≤ s.calls ∧ j ∉ s.suspended.erase id ∧ unwrapped e.cycle e.value = st + j := by
  obtain ⟨j, hj, hn, hp⟩ := h.origin e he
  exact ⟨j, hj, fun hm => hn (mem_of_mem_erase hm), hp⟩

end

theorem invariant_step {a : Action} (h : Invariant cfg st s)
    (hs : guarded (step cfg) ResumesNewest s a = some t) : Invariant cfg st t := by
  obtain ⟨hg, hs⟩ := guarded_eq_some.mp hs
  cases a with
  | call => exact invariant_call h hs
  | resume id =>
    have hm : id ∈ s.suspended := by
      by_contra hn
      simp [step, hn] at hs
    obtain rfl : id = s.calls := hg
    simp only [step, hm, if_true, Option.some.injEq] at hs
    subst t
    refine ⟨h.position, h.bounded, fun i hi => h.suspended_le i (mem_of_mem_erase hi),
      h.suspended_nodup.erase _, ?_, nodup_cons.mpr ⟨fresh_resume h hm, h.nodup⟩⟩
    intro e he
    rcases mem_cons.mp he with rfl | he
    · exact ⟨s.calls, le_rfl, h.suspended_nodup.not_mem_erase, h.position⟩
    · exact origin_erase h _ he
  | reject id =>
    have hm : id ∈ s.suspended := by
      by_contra hn
      simp [step, hn] at hs
    simp only [step, hm, if_true, Option.some.injEq] at hs
    subst t
    exact ⟨h.position, h.bounded, fun i hi => h.suspended_le i (mem_of_mem_erase hi),
      h.suspended_nodup.erase _, fun e he => origin_erase h _ he, h.nodup⟩

/-- In every run in which a call is resumed only while it is the newest call, with or
without a rollover callback, the values returned between two wraps are distinct. -/
theorem distinct_of_resumes_newest (cfg : Config) (r : UInt32) (as : List Action) (t : State)
    (h : Run (guarded (step cfg) ResumesNewest) (initial r) as t) : DistinctPerCycle t := by
  have hi := run_invariant (I := Invariant cfg (initial r).messageCounter)
    (fun _ _ _ hs hi => invariant_step hi hs) h (invariant_initial cfg r)
  exact hi.nodup

/-- One suspended call followed by another one, after the first has returned. -/
theorem distinct_of_resumes_newest_suspended :
    ∃ t, Run (guarded (step ⟨true, 0xfffffffd⟩) ResumesNewest) (initial 0)
        [.call, .resume 1, .call] t ∧ t.returned = [⟨0, 3⟩, ⟨0, 2⟩] ∧ DistinctPerCycle t := by
  have hr : Run (guarded (step ⟨true, 0xfffffffd⟩) ResumesNewest) (initial 0)
      [.call, .resume 1, .call] ⟨3, 0, 2, [], [⟨0, 3⟩, ⟨0, 2⟩]⟩ := run_of_exec (by decide)
  exact ⟨_, hr, rfl, distinct_of_resumes_newest _ _ _ _ hr⟩

/-- Calls below the rollover mark all return at once. -/
theorem exec_calls (cfg : Config) (n : Nat)
    (hn : ((s.messageCounter + n : Nat) : Int) < maxCounterValue32Bit - cfg.rolloverInfoDifference)
    (hm : s.messageCounter + n ≤ maxCounterValue32Bit) : ∃ t,
    exec (step cfg) s (List.replicate n .call) = some t ∧ t.messageCounter = s.messageCounter + n ∧
    t.wraps = s.wraps ∧ t.calls = s.calls + n ∧ t.suspended = s.suspended := by
  induction n generalizing s with
  | zero => exact ⟨s, rfl, rfl, rfl, rfl, rfl⟩
  | succ n ih =>
    have hi : increment cfg s.messageCounter = .returned (s.messageCounter + 1) false := by
      unfold increment
      rw [if_neg (by omega), if_neg (by omega)]
    obtain ⟨t, ht, hc, hw, hl, hs⟩ :=
      ih (s := { s with messageCounter := s.messageCounter + 1, calls := s.calls + 1,
                        returned := ⟨s.wraps, s.messageCounter + 1⟩ :: s.returned })
        (by dsimp only; omega) (by dsimp only; omega)
    refine ⟨t, ?_, hc.trans (by dsimp only; omega), hw, hl.trans (by dsimp only; omega), hs⟩
    simpa [replicate_succ, exec, step, hi] using ht

/-- A session counter with the default settings: the call that reaches the rollover
mark is overtaken by the next call, and both return 0xffffffff - 99999. -/
theorem distinct_fails : ∃ t, Run (step ⟨true, defaultRolloverInfoDifference⟩) (initial 0)
        (List.replicate 4294867293 .call ++ [.call, .call, .resume 4294867294]) t ∧
      ¬ DistinctPerCycle t := by
  obtain ⟨s, hs, hc, hw, hl, hu⟩ :=
    exec_calls (s := initial 0) ⟨true, defaultRolloverInfoDifference⟩ 4294867293
      (by decide) (by decide)
  obtain ⟨m, wraps, calls, u, r⟩ := s
  have hc' : m = 4294867294 := hc
  have hcl' : calls = 4294867293 := hl
  have hs' : u = [] := hu
  subst hc' hcl' hs'
  refine ⟨⟨4294867296, wraps, 4294867295, [],
    ⟨wraps, 4294867296⟩ :: ⟨wraps, 4294867296⟩ :: r⟩, run_of_exec ?_, ?_⟩
  · rw [exec_append, hs]
    have h1 : increment ⟨true, defaultRolloverInfoDifference⟩ 4294867294 =
        .suspended 4294867295 := by decide
    have h2 : increment ⟨true, defaultRolloverInfoDifference⟩ 4294867295 =
        .returned 4294867296 false := by decide
    simp [exec, step, h1, h2]
  · simp [DistinctPerCycle]

end MatterJs.MessageCounter
