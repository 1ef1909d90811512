import MatterJs.Foundation.TransitionSystem

/-!
# Outgoing message counters

`MessageCounter` as a transition system over its overlapping calls. A call
increments the counter at once; it may then stay suspended in the rollover
callback, and what it returns is the counter at the moment it is resumed.
-/
namespace MatterJs.MessageCounter

def maxCounterValue32Bit : Nat := 0xffffffff

def defaultRolloverInfoDifference : Int := 100000

structure Config where
  /-- An `onRollover` callback was given. -/
  onRollover : Bool
  rolloverInfoDifference : Int := defaultRolloverInfoDifference

/-- What the code before the first suspension of `getIncrementedCounter` does. -/
inductive Increment
  /-- The counter is returned without suspension; `wrapped` tells whether it restarted at 0. -/
  | returned (messageCounter : Nat) (wrapped : Bool)
  /-- The rollover callback is awaited. -/
  | suspended (messageCounter : Nat)
  /-- "Message counter rollover not allowed." -/
  | thrown (messageCounter : Nat)
  deriving DecidableEq

variable (cfg : Config)

def increment (messageCounter : Nat) : Increment :=
  if maxCounterValue32Bit < messageCounter + 1 then
    if cfg.onRollover then .returned 0 true
    else .thrown (messageCounter + 1)
  else if cfg.onRollover ∧
      ((messageCounter + 1 : Nat) : Int) = maxCounterValue32Bit - cfg.rolloverInfoDifference then
    .suspended (messageCounter + 1)
  else .returned (messageCounter + 1) false

theorem increment_cases (n : Nat) :
    (increment cfg n = .returned (n + 1) false ∧ n + 1 ≤ maxCounterValue32Bit) ∨
    (increment cfg n = .returned 0 true ∧ maxCounterValue32Bit ≤ n ∧ cfg.onRollover) ∨
    (increment cfg n = .suspended (n + 1) ∧ n + 1 ≤ maxCounterValue32Bit ∧ cfg.onRollover) ∨
    (increment cfg n = .thrown (n + 1) ∧ maxCounterValue32Bit ≤ n ∧ cfg.onRollover = false) := by
  unfold increment
  by_cases hm : maxCounterValue32Bit < n + 1
  · cases hr : cfg.onRollover
    · simp [hm]
      omega
    · simp [hm]
      omega
  · simp only [hm, if_false]
    split_ifs with hr
    · exact .inr (.inr (.inl ⟨rfl, by omega, hr.1⟩))
    · exact .inl ⟨rfl, by omega⟩

/-- A value handed to a caller, with the number of wraps before it was read. -/
structure Issued where
  cycle : Nat
  value : Nat
  deriving DecidableEq

structure State where
  messageCounter : Nat
  /-- Wraps from 0xffffffff to 0 so far. -/
  wraps : Nat
  /-- Calls started so far. They are numbered from 1, so this is the newest call. -/
  calls : Nat
  /-- Calls suspended in the rollover callback. -/
  suspended : List Nat
  /-- Everything returned so far, newest first. -/
  returned : List Issued
  deriving DecidableEq

/-- The constructor draws a 28-bit random number and adds one. -/
def initial (randomUint32 : UInt32) : State where
  messageCounter := (randomUint32 >>> 4).toNat + 1
  wraps := 0
  calls := 0
  suspended := []
  returned := []

inductive Action
  /-- `getIncrementedCounter()` is called and runs to its first suspension. -/
  | call
  /-- The rollover callback of a call resolves and the call returns. -/
  | resume (id : Nat)
  /-- The rollover callback of a call rejects and so does the call. -/
  | reject (id : Nat)

def step (s : State) : Action → Option State
  | .call =>
    match increment cfg s.messageCounter with
    | .returned n wrapped =>
      let wraps := if wrapped then s.wraps + 1 else s.wraps
      some { s with messageCounter := n, wraps, calls := s.calls + 1,
                    returned := ⟨wraps, n⟩ :: s.returned }
    | .suspended n =>
      some { s with messageCounter := n, calls := s.calls + 1,
                    suspended := (s.calls + 1) :: s.suspended }
    | .thrown n => some { s with messageCounter := n, calls := s.calls + 1 }
  | .resume id =>
    if id ∈ s.suspended then
      -- the counter is read only now, after the callback
      some { s with suspended := s.suspended.erase id,
                    returned := ⟨s.wraps, s.messageCounter⟩ :: s.returned }
    else none
  | .reject id =>
    if id ∈ s.suspended then some { s with suspended := s.suspended.erase id } else none

/-- No counter value is handed out twice between two wraps. -/
def DistinctPerCycle (s : State) : Prop := s.returned.Nodup

instance (s : State) : Decidable (DistinctPerCycle s) := inferInstanceAs (Decidable (List.Nodup _))

end MatterJs.MessageCounter
