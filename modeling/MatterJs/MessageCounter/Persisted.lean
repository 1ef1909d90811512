import MatterJs.MessageCounter.Distinct

/-!
# The persisted counter across restarts

`PersistedMessageCounter` with a reserve, together with the storage it writes
to. A run is any interleaving of overlapping calls, of the storage applying and
confirming writes, and of restarts that lose everything but the storage.
-/
namespace MatterJs.MessageCounter.Persisted

open TransitionSystem

/-- A counter value with its cycle. The cycle is ghost state; the code and the
storage hold the value only. -/
structure Mark where
  cycle : Nat
  value : Nat
  deriving DecidableEq

/-- The position of a mark in an unwrapped count. -/
def Mark.position (m : Mark) : Nat := unwrapped m.cycle m.value

/-- `PersistedMessageCounterOptions` of a counter that reserves ahead. The
constructor refuses a reserve that is not positive. -/
structure Options where
  config : Config
  reserve : Nat
  seed : Option Nat
  reserve_pos : 0 < reserve

/-- A `storageContext.set` that has not settled yet. -/
structure Write where
  mark : Mark
  /-- The counter its call returns afterwards, or none for the write of the construction. -/
  counter : Option Mark
  /-- The storage holds the value already, but the promise has not resolved. -/
  applied : Bool

inductive Construction
  /-- The construction awaits the rollover callback. -/
  | inCallback
  /-- The construction awaits its first reservation. -/
  | reserving
  | ready
  deriving DecidableEq

/-- One life of the counter in RAM. -/
structure Instance where
  options : Options
  messageCounter : Nat
  /-- The cycle of the counter, ghost. -/
  wraps : Nat
  /-- `#reserved`, where none is the initial Infinity. -/
  reserved : Option Nat
  construction : Construction
  /-- Calls suspended in the rollover callback. -/
  callbacks : Nat
  /-- Counters that calls have obtained but not yet compared with the reservation. -/
  counted : List Mark
  writes : List Write

structure Returned where
  boot : Nat
  counter : Mark

structure System where
  stored : Option Mark
  running : Option Instance
  /-- Restarts so far. -/
  boots : Nat
  /-- Everything handed to callers so far, newest first. -/
  returned : List Returned

def initial (stored : Option Nat) : System where
  stored := stored.map (fun value => ⟨0, value⟩)
  running := none
  boots := 0
  returned := []

inductive Action
  | boot (options : Options) (randomUint32 : UInt32)
  | constructResume
  | constructReject
  | call
  | resume
  | reject
  /-- The n-th counted call goes on and compares its counter with the reservation. -/
  | check (n : Nat)
  /-- The storage takes over the n-th pending write. -/
  | apply (n : Nat)
  /-- The promise of the n-th pending write resolves. -/
  | resolve (n : Nat)
  /-- The promise of the n-th pending write rejects. -/
  | fail (n : Nat)
  /-- Everything in RAM is lost. -/
  | crash

variable (i : Instance)

/-- `#reserveAhead` up to its await, for the caller that will return `counter`. -/
def reserveAhead (counter : Option Mark) : Instance :=
  let reserved := min (i.messageCounter + i.options.reserve) maxCounterValue32Bit
  { i with reserved := some reserved,
           writes := i.writes ++ [⟨⟨i.wraps, reserved⟩, counter, false⟩] }

/-- Whether a counter has left the reserved block, at its end or by a rollover. -/
def leavesReserved (counter : Nat) : Bool :=
  match i.reserved with
  | none => true
  | some reserved => reserved ≤ counter ∨ counter + i.options.reserve < reserved

def instanceAt (options : Options) (start : Mark) : Instance where
  options := options
  messageCounter := start.value
  wraps := start.cycle
  reserved := none
  construction := .reserving
  callbacks := 0
  counted := []
  writes := []

/-- The asynchronous construction, up to its first suspension. It fails on an invalid
stored value or seed. -/
def construct (stored : Option Mark) (options : Options) (randomUint32 : UInt32) :
    Option Instance :=
  match stored with
  | some stored =>
    if maxCounterValue32Bit < stored.value then none
    else if options.config.onRollover ∧ (maxCounterValue32Bit : Int) -
        options.config.rolloverInfoDifference ≤ stored.value then
      some { instanceAt options stored with construction := .inCallback }
    else some (reserveAhead (instanceAt options stored) none)
  | none =>
    match options.seed with
    | some seed =>
      if maxCounterValue32Bit < seed then none
      else some (reserveAhead (instanceAt options ⟨0, seed⟩) none)
    | none =>
      some (reserveAhead (instanceAt options ⟨0, (randomUint32 >>> 4).toNat + 1⟩) none)

/-- A call to `getIncrementedCounter` up to its first suspension. -/
def beginCall : Instance :=
  match increment i.options.config i.messageCounter with
  | .returned n wrapped =>
    let wraps := if wrapped then i.wraps + 1 else i.wraps
    { i with messageCounter := n, wraps, counted := i.counted ++ [⟨wraps, n⟩] }
  | .suspended n => { i with messageCounter := n, callbacks := i.callbacks + 1 }
  | .thrown n => { i with messageCounter := n }

variable (s : System)

/-- A confirmed write lets its call return, or finishes the construction. -/
def confirm (i : Instance) (n : Nat) (w : Write) : System :=
  let i := { i with writes := i.writes.eraseIdx n }
  match w.counter with
  | none => { s with running := some { i with construction := .ready } }
  | some c => { s with running := some i, returned := ⟨s.boots, c⟩ :: s.returned }

/-- The steps of a running instance. -/
def stepRunning (i : Instance) : Action → Option System
  | .boot _ _ => none
  | .constructResume =>
    if i.construction = .inCallback then
      some { s with running := some (reserveAhead { i with construction := .reserving } none) }
    else none
  | .constructReject =>
    if i.construction = .inCallback then some { s with running := none } else none
  | .call =>
    if i.construction = .ready then some { s with running := some (beginCall i) } else none
  | .resume =>
    if 0 < i.callbacks then
      some { s with running := some { i with
        callbacks := i.callbacks - 1, counted := i.counted ++ [⟨i.wraps, i.messageCounter⟩] } }
    else none
  | .reject =>
    if 0 < i.callbacks then
      some { s with running := some { i with callbacks := i.callbacks - 1 } }
    else none
  | .check n =>
    match i.counted[n]? with
    | none => none
    | some c =>
      let i := { i with counted := i.counted.eraseIdx n }
      if leavesReserved i c.value then some { s with running := some (reserveAhead i (some c)) }
      else some { s with running := some i, returned := ⟨s.boots, c⟩ :: s.returned }
  | .apply n =>
    match i.writes[n]? with
    | none => none
    | some w =>
      if w.applied then none
      else some { s with
        stored := some w.mark
        running := some { i with writes := i.writes.set n { w with applied := true } } }
  | .resolve n =>
    match i.writes[n]? with
    | none => none
    | some w => if w.applied then some (confirm s i n w) else none
  | .fail n =>
    match i.writes[n]? with
    | none => none
    | some w =>
      if w.applied then none
      else if w.counter = none then some { s with running := none }
      else some { s with running := some { i with writes := i.writes.eraseIdx n } }
  | .crash => some { s with running := none }

def step (a : Action) : Option System :=
  match s.running, a with
  | none, .boot options random =>
    some { s with running := construct s.stored options random, boots := s.boots + 1 }
  | none, _ => none
  | some i, a => stepRunning s i a

/-- Nothing returned before a restart is returned again after it in the same cycle. -/
def NoReissue : Prop :=
  ∀ a ∈ s.returned, ∀ b ∈ s.returned, a.boot < b.boot → a.counter ≠ b.counter

instance (s : System) : Decidable (NoReissue s) :=
  inferInstanceAs (Decidable (∀ a ∈ s.returned, ∀ b ∈ s.returned, _ → _))

/-- Overlapping calls at the end of a reserved block. The first call waits for its
reservation, the second returns 7 under it, and the write is lost in the restart:
the storage still says 6, so that 7 is returned again. -/
theorem reissue_after_lost_reservation :
    ∃ t, Run step (initial none)
      [.boot ⟨⟨false, defaultRolloverInfoDifference⟩, 1, some 5, by decide⟩ 0, .apply 0, .resolve 0,
        .call, .call, .check 0, .check 0, .crash,
        .boot ⟨⟨false, defaultRolloverInfoDifference⟩, 1, some 5, by decide⟩ 0,
        .apply 0, .resolve 0, .call, .check 0, .apply 0, .resolve 0] t ∧ ¬ NoReissue t :=
  ⟨_, run_of_exec rfl, by decide⟩

end MatterJs.MessageCounter.Persisted
