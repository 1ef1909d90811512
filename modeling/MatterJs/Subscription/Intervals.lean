import Mathlib.Data.Rat.Floor

/-!
# The intervals of a subscription

How the server chooses the maximum interval it grants and the interval at which it sends. Durations
are milliseconds, as exact numbers.
-/
namespace MatterJs.Subscription

def maxIntervalPublisherLimit : ℚ := 3600000

def internalIntervalPublisherLimit : ℚ := 180000

def minIntervalLimit : ℚ := 2000

def defaultRandomizationWindow : ℚ := 10000

/-- The publisher's options, with a minimum of two seconds or more. -/
structure ServerSubscriptionConfig where
  maxInterval : ℚ
  minInterval : ℚ
  randomizationWindow : ℚ
  limit_le : minIntervalLimit ≤ minInterval

namespace ServerSubscriptionConfig

structure Options where
  maxInterval : Option ℚ := none
  minInterval : Option ℚ := none
  randomizationWindow : Option ℚ := none

def of (options : Options) : ServerSubscriptionConfig where
  maxInterval := options.maxInterval.getD internalIntervalPublisherLimit
  minInterval := max (options.minInterval.getD minIntervalLimit) minIntervalLimit
  randomizationWindow := options.randomizationWindow.getD defaultRandomizationWindow
  limit_le := le_max_right ..

end ServerSubscriptionConfig

structure IntervalRequest where
  minIntervalFloorSeconds : ℕ
  maxIntervalCeilingSeconds : ℕ

namespace IntervalRequest

def minIntervalFloor (q : IntervalRequest) : ℚ := q.minIntervalFloorSeconds * 1000

def maxIntervalCeiling (q : IntervalRequest) : ℚ := q.maxIntervalCeilingSeconds * 1000

theorem minIntervalFloor_nonneg (q : IntervalRequest) : 0 ≤ q.minIntervalFloor := by
  unfold minIntervalFloor
  positivity

end IntervalRequest

/-- What the node tells about its intermittently connected device, absent without the server. -/
structure IcdManagement where
  longIdleTimeSupport : Option Bool
  idleModeDuration : Option ℕ

structure SendingIntervals where
  maxInterval : ℚ
  sendInterval : ℚ

def icdIdleMaxInterval (q : IntervalRequest) (node : IcdManagement) : Option ℚ :=
  if node.longIdleTimeSupport ≠ some true then none
  else node.idleModeDuration.map fun d => max q.minIntervalFloor (d * 1000)

/-- The interval with a share of the window, before the limits of both sides. -/
def randomizedInterval (q : IntervalRequest) (c : ServerSubscriptionConfig) (random : ℚ) : ℚ :=
  ⌊max c.minInterval (max q.minIntervalFloor (min c.maxInterval q.maxIntervalCeiling)) +
    c.randomizationWindow * random⌋

def genericMaxInterval (q : IntervalRequest) (c : ServerSubscriptionConfig) (random : ℚ) : ℚ :=
  max q.minIntervalFloor (min (randomizedInterval q c random) maxIntervalPublisherLimit)

/-- Half the maximum, or eight tenths where that leaves no time to send again. -/
def idealSendInterval (q : IntervalRequest) (maxInterval : ℚ) : ℚ :=
  if (⌊maxInterval / 2⌋ : ℚ) < 60000 then max q.minIntervalFloor ⌊maxInterval * (4 / 5)⌋
  else ⌊maxInterval / 2⌋

def determineSendingIntervals (q : IntervalRequest) (node : IcdManagement)
    (c : ServerSubscriptionConfig) (random : ℚ) : SendingIntervals :=
  let maxInterval := (icdIdleMaxInterval q node).getD (genericMaxInterval q c random)
  let sendInterval := idealSendInterval q maxInterval
  ⟨maxInterval, if sendInterval < c.minInterval then c.minInterval else sendInterval⟩

variable (q : IntervalRequest) (n : IcdManagement) (c : ServerSubscriptionConfig) (r : ℚ)

theorem floor_le_maxInterval :
    q.minIntervalFloor ≤ (determineSendingIntervals q n c r).maxInterval := by
  unfold determineSendingIntervals icdIdleMaxInterval
  split_ifs
  · exact le_max_left ..
  · cases n.idleModeDuration <;> exact le_max_left ..

theorem sendInterval_eq : (determineSendingIntervals q n c r).sendInterval =
    max (idealSendInterval q (determineSendingIntervals q n c r).maxInterval) c.minInterval :=
  (max_def_lt ..).symm

theorem idealSendInterval_le {m : ℚ} (hm : q.minIntervalFloor ≤ m) : idealSendInterval q m ≤ m := by
  have h0 := q.minIntervalFloor_nonneg.trans hm
  unfold idealSendInterval
  split_ifs
  · exact max_le hm ((Int.floor_le _).trans (by linarith))
  · exact (Int.floor_le _).trans (by linarith)

theorem floor_le_idealSendInterval {m : ℚ} (hm : idealSendInterval q m < 60000) :
    q.minIntervalFloor ≤ idealSendInterval q m := by
  unfold idealSendInterval at hm ⊢
  split_ifs at hm ⊢ with h
  · exact le_max_left ..
  · exact absurd hm h

/-- The configured minimum fits into the maximum that will be granted. -/
def MinIntervalFits : Prop :=
  c.minInterval ≤ q.minIntervalFloor ∨
    match n.longIdleTimeSupport, n.idleModeDuration with
    | some true, some d => c.minInterval ≤ d * 1000
    | _, _ => c.minInterval ≤ maxIntervalPublisherLimit ∧ c.minInterval ≤ randomizedInterval q c r

theorem minInterval_le_maxInterval_iff :
    c.minInterval ≤ (determineSendingIntervals q n c r).maxInterval ↔ MinIntervalFits q n c r := by
  unfold determineSendingIntervals icdIdleMaxInterval MinIntervalFits genericMaxInterval
  obtain ⟨_ | _ | _, _ | d⟩ := n <;> simp [and_comm]

/-- The granted maximum is not below the subscriber's floor, and the send interval is positive and
keeps the floor below one minute. It keeps the maximum exactly when the configured minimum fits,
since that minimum and not the maximum replaces a send interval that is too low. -/
theorem intervals_consistent_iff (o : ServerSubscriptionConfig.Options) :
    let c := ServerSubscriptionConfig.of o
    let i := determineSendingIntervals q n c r
    q.minIntervalFloor ≤ i.maxInterval ∧ 0 < i.sendInterval ∧
      (i.sendInterval < 60000 → q.minIntervalFloor ≤ i.sendInterval) ∧
      (i.sendInterval ≤ i.maxInterval ↔ MinIntervalFits q n c r) := by
  intro c i
  have hf := floor_le_maxInterval q n c r
  have hs := sendInterval_eq q n c r
  refine ⟨hf, ?_, fun h => ?_, ?_⟩
  · have h2 : (0 : ℚ) < minIntervalLimit := by norm_num [minIntervalLimit]
    rw [hs]
    exact lt_max_of_lt_right (h2.trans_le c.limit_le)
  · rw [hs] at h ⊢
    exact le_max_of_le_left (floor_le_idealSendInterval q ((le_max_left ..).trans_lt h))
  · rw [hs, max_le_iff, ← minInterval_le_maxInterval_iff]
    exact and_iff_right (idealSendInterval_le q hf)

/-- An idle period of one second, by the default options: a report every two seconds, when the
subscriber is told to expect one in every second. -/
theorem short_idle_mode_sends_too_late :
    let i := determineSendingIntervals ⟨0, 60⟩ ⟨some true, some 1⟩ (.of {}) 0
    i.maxInterval = 1000 ∧ i.sendInterval = 2000 := by
  decide +kernel

end MatterJs.Subscription
