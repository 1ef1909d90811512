import MatterJs.Events.EventStore
import Mathlib.Data.List.Sort

/-!
# The occurrence manager

`OccurrenceManager` keeps an index of the recorded occurrences over an event store. The store's
operations complete some time after they are started and in any order; one that completes at
once is one whose completion is the next event. An iteration of `get` is cut where it awaits the
running cull, where it awaits a read of the store and where it yields.
-/
namespace MatterJs.Events

open OccurrenceSummary

variable {Payload : Type}

structure BufferConfig where
  minEventAllowance : Nat
  maxEventAllowance : Nat
  /-- `minPriorityEventAllowance` of the info and the debug occurrences. -/
  info : Nat
  debug : Nat

def BufferConfig.default : BufferConfig where
  minEventAllowance := 10000
  maxEventAllowance := 11000
  info := 2000
  debug := 2000

/-! ### The start of an iteration -/

variable (occurrences : List OccurrenceSummary)

def numberAt (i : Nat) : Nat :=
  (occurrences[i]?.map number).getD 0

/-- The first loop of `#findMinEventNumberIndex`: from the end, in steps that double, to an entry
below `eventMin` or to the start. Each round lowers `low`, so `low` rounds are enough. -/
def stepBack (eventMin : Nat) : (fuel low high step : Nat) → Nat × Nat
  | 0, low, high, _ => (low, high)
  | fuel + 1, low, high, step =>
    if 0 < low ∧ eventMin ≤ numberAt occurrences low then
      stepBack eventMin fuel (low - step) low (step * 2)
    else (low, high)

/-- The second loop, a binary search between the two bounds, both included. -/
def bisect (eventMin : Nat) : (fuel : Nat) → (low high : Int) → Int
  | 0, low, _ => low
  | fuel + 1, low, high =>
    if low ≤ high then
      let mid := (low + high) / 2
      if numberAt occurrences mid.toNat < eventMin then
        bisect eventMin fuel (mid + 1) high
      else bisect eventMin fuel low (mid - 1)
    else low

/-- The index of the first entry from `eventMin` on; `none` stands for the `-1` of the source. -/
def findMinEventNumberIndex (eventMin : Nat) :
    Option Nat :=
  let last := occurrences.length - 1
  if occurrences.isEmpty ∨ numberAt occurrences last < eventMin then none
  else if eventMin ≤ numberAt occurrences 0 then some 0
  else
    let (low, high) := stepBack occurrences eventMin last last last 1
    some (bisect occurrences eventMin occurrences.length low high).toNat

/-! ### Culling -/

/-- The occurrences of a priority still to keep, and the position at which they are reached. -/
structure PrioData where
  count : Nat
  minPosition : Option Nat := none

def PrioData.visit (data : PrioData) (i : Nat) : PrioData :=
  if 0 < data.count then
    { count := data.count - 1
      minPosition := if data.count - 1 = 0 then some i else data.minPosition }
  else data

/-- The loop that counts the entries below `i` from the end, until both positions are known. -/
def countBack (occurrences : List OccurrenceSummary) :
    (i : Nat) → (info debug : PrioData) → PrioData × PrioData
  | 0, info, debug => (info, debug)
  | i + 1, info, debug =>
    let visited :=
      match occurrences[i]?.map priority with
      | some .info => (info.visit i, debug)
      | some .debug => (info, debug.visit i)
      | _ => (info, debug)
    if visited.1.minPosition.isSome ∧ visited.2.minPosition.isSome then visited
    else countBack occurrences i visited.1 visited.2

/-- What a pass leaves: the entries, the dropped ones as `none`, how many are still to delete,
and the numbers dropped. -/
structure Dropping where
  entries : List (Option OccurrenceSummary)
  toDelete : Nat
  drops : List Nat

/-- The loop over the entries of one priority up to `checkUpTo`. -/
def dropPriority (priority : Priority) :
    (checkUpTo toDelete : Nat) → List (Option OccurrenceSummary) → Dropping
  | 0, toDelete, entries => ⟨entries, toDelete, []⟩
  | _, 0, entries => ⟨entries, 0, []⟩
  | _, toDelete, [] => ⟨[], toDelete, []⟩
  | checkUpTo + 1, toDelete + 1, none :: entries =>
    let rest := dropPriority priority checkUpTo (toDelete + 1) entries
    { rest with entries := none :: rest.entries }
  | checkUpTo + 1, toDelete + 1, some entry :: entries =>
    if entry.priority = priority then
      let rest := dropPriority priority checkUpTo toDelete entries
      { rest with entries := none :: rest.entries, drops := entry.number :: rest.drops }
    else
      let rest := dropPriority priority checkUpTo (toDelete + 1) entries
      { rest with entries := some entry :: rest.entries }

/-- The loop over the priorities with the position up to which each is checked. -/
def dropPriorities : List (Priority × Option Nat) → Dropping → Dropping
  | [], state => state
  | (_, none) :: priorities, state => dropPriorities priorities state
  | (priority, some checkUpTo) :: priorities, state =>
    let pass := dropPriority priority checkUpTo state.toDelete state.entries
    let state := { pass with drops := state.drops ++ pass.drops }
    if state.toDelete = 0 then state else dropPriorities priorities state

/-- The index after `#dropOldOccurrences` and the numbers it deletes from the store. -/
def dropOldOccurrences (config : BufferConfig) (occurrences : List OccurrenceSummary) :
    List OccurrenceSummary × List Nat :=
  let toDelete := occurrences.length - config.minEventAllowance
  if toDelete = 0 then (occurrences, [])
  else
    let (info, debug) :=
      countBack occurrences occurrences.length { count := config.info } { count := config.debug }
    let state :=
      dropPriorities
        [(.debug, debug.minPosition), (.info, info.minPosition),
          (.critical, some occurrences.length)]
        ⟨occurrences.map some, toDelete, []⟩
    (state.entries.filterMap id, state.drops)

/-! ### The manager -/

/-- Where an iteration of `get` stands. -/
inductive Phase
  /-- Waits for the cull that ran when it started. -/
  | awaitingCull
  /-- The cull is over; the iteration has still to go on. -/
  | ready
  /-- Waits for the store to return the occurrence of the entry at the index. -/
  | reading (i : Nat) (eventNumber : Nat)
  /-- Has yielded the entry at the index. -/
  | yielded (i : Nat)
  /-- Ran to its end. -/
  | finished
  /-- Was left by its consumer. -/
  | left
  deriving DecidableEq

structure Iteration (Payload : Type) where
  eventMin : Option Nat
  phase : Phase
  /-- What it has yielded, the latest last. A read that finds nothing yields the number alone. -/
  yields : List (Nat × Option (Occurrence Payload)) := []
  /-- The numbers in the index at its start and ever since. -/
  present : List Nat

structure OccurrenceManager (Payload : Type) where
  bufferConfig : BufferConfig
  /-- The occurrences in the store, and the number it allocates next. -/
  events : List (Nat × Occurrence Payload)
  nextNumber : Nat
  occurrences : List OccurrenceSummary
  /-- The deletions that the cull waits for; none is running when there are none. -/
  cull : List Nat := []
  iteratingValuesInProgress : Bool := false
  /-- The writes of `add` on their way. -/
  writes : List (Nat × Occurrence Payload) := []
  /-- The removed numbers whose deletion waits for the cull. -/
  removals : List Nat := []
  /-- The deletions of `remove` on their way. -/
  deletes : List Nat := []
  iterations : List (Iteration Payload) := []
  /-- Every occurrence that was ever written to the store. -/
  recorded : List (Nat × Occurrence Payload)

namespace OccurrenceManager

variable (m : OccurrenceManager Payload)

def numbers : List Nat :=
  m.occurrences.map number

def startCull : OccurrenceManager Payload :=
  if !m.cull.isEmpty || m.iteratingValuesInProgress then m
  else
    let (occurrences, drops) := dropOldOccurrences m.bufferConfig m.occurrences
    { m with occurrences, cull := drops }

/-- The constructor's load: the index of the store's occurrences, sorted by number. -/
def create (bufferConfig : BufferConfig) (store : EventStore Payload) :
    OccurrenceManager Payload :=
  let index := store.occurrences.map (fun event => event.2.summary event.1)
  let m : OccurrenceManager Payload :=
    { bufferConfig
      events := store.occurrences
      nextNumber := store.nextNumber
      recorded := store.occurrences
      occurrences := index.insertionSort (fun a b => a.number ≤ b.number) }
  if m.occurrences.length > bufferConfig.minEventAllowance then m.startCull else m

def add (occurrence : Occurrence Payload) :
    OccurrenceManager Payload :=
  { m with nextNumber := m.nextNumber + 1, writes := m.writes ++ [(m.nextNumber, occurrence)] }

variable (number : Nat)

/-- A write is done: `add` goes on with the new entry. -/
def written (occurrence : Occurrence Payload) :
    OccurrenceManager Payload :=
  let m :=
    { m with
      events := InsertionMap.set m.events number occurrence
      recorded := m.recorded ++ [(number, occurrence)]
      occurrences := m.occurrences ++ [occurrence.summary number] }
  if m.occurrences.length > m.bufferConfig.maxEventAllowance then m.startCull else m

def remove : OccurrenceManager Payload :=
  match m.occurrences.findIdx? (·.number == number) with
  | none => m
  | some index =>
    let m := { m with occurrences := m.occurrences.eraseIdx index }
    if m.cull.isEmpty then { m with deletes := m.deletes ++ [number] }
    else { m with removals := m.removals ++ [number] }

/-- A deletion of the store settles; one that fails leaves the occurrence there. -/
def settle (succeeds : Bool) :
    OccurrenceManager Payload :=
  if succeeds then { m with events := InsertionMap.delete m.events number } else m

/-- The cull is over once all its deletions are settled: what waits for it goes on. -/
def cullSettled : OccurrenceManager Payload :=
  if m.cull.isEmpty then
    { m with
      deletes := m.deletes ++ m.removals
      removals := []
      iterations := m.iterations.map (fun iteration =>
        if iteration.phase = .awaitingCull then { iteration with phase := .ready }
        else iteration) }
  else m

/-- The head of the loop of `get`: reads the entry at the index, or ends. -/
def visit (id : Nat) (iteration : Iteration Payload) (i : Nat) :
    OccurrenceManager Payload :=
  match m.occurrences[i]? with
  | some entry =>
    { m with iterations := m.iterations.set id { iteration with phase := .reading i entry.number } }
  | none =>
    { m with
      iteratingValuesInProgress := false
      iterations := m.iterations.set id { iteration with phase := .finished } }

/-- The index an iteration starts at. -/
def startIndex : Option Nat → Option Nat
  | none => some 0
  | some eventMin => findMinEventNumberIndex m.occurrences eventMin

/-- `get` after it has waited for the cull. -/
def begin (id : Nat) (iteration : Iteration Payload) :
    OccurrenceManager Payload :=
  match m.startIndex iteration.eventMin with
  | none => { m with iterations := m.iterations.set id { iteration with phase := .finished } }
  | some i => { m with iteratingValuesInProgress := true }.visit id iteration i

def get (eventMin : Option Nat) : OccurrenceManager Payload :=
  let iteration : Iteration Payload := { eventMin, phase := .awaitingCull, present := m.numbers }
  let m' := { m with iterations := m.iterations ++ [iteration] }
  if m.cull.isEmpty then m'.begin m.iterations.length iteration else m'

end OccurrenceManager

/-! ### Events -/

inductive ManagerEvent (Payload : Type)
  | add (occurrence : Occurrence Payload)
  /-- The write at the index is done, or fails. -/
  | written (index : Nat)
  | writeFailed (index : Nat)
  | remove (number : Nat)
  /-- The deletion at the index, of the cull or of `remove`, settles. -/
  | culled (index : Nat) (succeeds : Bool)
  | deleted (index : Nat) (succeeds : Bool)
  /-- A consumer asks a new iteration for its first value. -/
  | get (eventMin : Option Nat)
  /-- The iteration goes on after the cull it waited for. -/
  | resume (id : Nat)
  /-- The store returns the occurrence that the iteration reads. -/
  | read (id : Nat)
  /-- The consumer asks for the next value, or leaves the iteration. -/
  | next (id : Nat)
  | leave (id : Nat)

namespace OccurrenceManager

variable (m : OccurrenceManager Payload)

def act : ManagerEvent Payload → Option (OccurrenceManager Payload)
  | .add occurrence => some (m.add occurrence)
  | .written index =>
    m.writes[index]?.map (fun write =>
      { m with writes := m.writes.eraseIdx index }.written write.1 write.2)
  | .writeFailed index =>
    m.writes[index]?.map (fun _ => { m with writes := m.writes.eraseIdx index })
  | .remove number => some (m.remove number)
  | .culled index succeeds =>
    m.cull[index]?.map (fun number =>
      ({ m with cull := m.cull.eraseIdx index }.settle number succeeds).cullSettled)
  | .deleted index succeeds =>
    m.deletes[index]?.map (fun number =>
      { m with deletes := m.deletes.eraseIdx index }.settle number succeeds)
  | .get eventMin => some (m.get eventMin)
  | .resume id =>
    match m.iterations[id]? with
    | some iteration => if iteration.phase = .ready then some (m.begin id iteration) else none
    | none => none
  | .read id =>
    match m.iterations[id]? with
    | some iteration =>
      match iteration.phase with
      | .reading i eventNumber =>
        let occurrence := InsertionMap.get m.events eventNumber
        some { m with
          iterations := m.iterations.set id
            { iteration with
              phase := .yielded i
              yields := iteration.yields ++ [(eventNumber, occurrence)] } }
      | _ => none
    | none => none
  | .next id =>
    match m.iterations[id]? with
    | some iteration =>
      match iteration.phase with
      | .yielded i => some (m.visit id iteration (i + 1))
      | _ => none
    | none => none
  | .leave id =>
    match m.iterations[id]? with
    | some iteration =>
      match iteration.phase with
      | .yielded _ =>
        some { m with
          iteratingValuesInProgress := false
          iterations := m.iterations.set id { iteration with phase := .left } }
      | _ => none
    | none => none

/-- An iteration that has not ended forgets the numbers that have left the index. -/
def keepPresent : OccurrenceManager Payload :=
  { m with
    iterations := m.iterations.map (fun iteration =>
      if iteration.phase = .finished then iteration
      else { iteration with present := iteration.present.filter (· ∈ m.numbers) }) }

def step (event : ManagerEvent Payload) :
    Option (OccurrenceManager Payload) :=
  (m.act event).map keepPresent

end OccurrenceManager

end MatterJs.Events
