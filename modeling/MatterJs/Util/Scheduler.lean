import MatterJs.Util.HeapOrder
import MatterJs.Foundation.TransitionSystem

/-!
# The scheduler

`Scheduler` runs workers at their times. Its loop suspends at two places: before a start, for a
slot of the semaphore if there is one, and for the time of the first worker or another first
worker.
-/
namespace MatterJs.Util

/-- Where the loop of `#schedule` stands. -/
inductive Loop (T : Type)
  /-- It looks at the first worker, with the time taken at the start of the pass. -/
  | scan (now : Int)
  /-- It waits for a slot for the worker that was the first one. -/
  | obtainSlot (now : Int) (first : T)
  /-- It waits for another first worker, or for the time of the first one. -/
  | asleep (first : Option T) (wakeAt : Option Int)
  | woken

/-- A start of a worker, with its time and the clock at that moment. -/
structure Start (T : Type) where
  worker : T
  timeOf : Int
  clock : Int
  deriving DecidableEq

structure Scheduler (T : Type) where
  /-- There is a semaphore. -/
  semaphore : Bool := false
  timeOf : T → Int := fun _ => 0
  clock : Int := 0
  queue : Heap T := {}
  loop : Loop T := .asleep none none
  /-- The additions to the queue, and the removals from it other than by a start. -/
  added : List T := []
  removed : List T := []
  started : List (Start T) := []

inductive SchedulerEvent (T : Type)
  | add (worker : T)
  | delete (worker : T)
  /-- The time of a worker is changed and `reschedule` is called. -/
  | reschedule (worker : T) (time : Int)
  /-- The time of a worker that is not in the queue is changed. -/
  | setTime (worker : T) (time : Int)
  | tick (duration : Nat)
  /-- The timer of the loop fires. -/
  | timer
  | resume
  | scan
  | slot

namespace Scheduler

variable {T : Type} [DecidableEq T]

def comparatorFor (timeOf : T → Int) (a b : T) : Int := timeOf a - timeOf b

/-- The observer of `firstChanged` that is there while the loop is asleep. -/
def notify (loop : Loop T) (emitted : List (Option T)) : Loop T :=
  match loop with
  | .asleep first wakeAt => if emitted.any (· != first) then .woken else .asleep first wakeAt
  | loop => loop

variable (s : Scheduler T) (worker : T)

def add : Scheduler T :=
  let (queue, emitted) := s.queue.add (comparatorFor s.timeOf) worker
  { s with
    queue
    loop := notify s.loop emitted
    added := if worker ∈ s.queue.buffer then s.added else s.added ++ [worker] }

def delete : Scheduler T :=
  let (queue, emitted) := s.queue.delete (comparatorFor s.timeOf) worker
  { s with
    queue
    loop := notify s.loop emitted
    removed := if worker ∈ s.queue.buffer then s.removed ++ [worker] else s.removed }

def setTime (time : Int) : Scheduler T :=
  { s with timeOf := Function.update s.timeOf worker time }

def reschedule (time : Int) : Scheduler T :=
  ((s.setTime worker time).delete worker).add worker

/-- The first of the queue is taken away, and the worker that was looked at is run. -/
def start (now : Int) (worker : T) : Scheduler T :=
  { s with
    queue := (s.queue.shift (comparatorFor s.timeOf)).1
    loop := .scan now
    started := s.started ++ [{ worker, timeOf := s.timeOf worker, clock := s.clock }] }

def scan (now : Int) : Scheduler T :=
  match s.queue.first with
  | some first =>
    if s.timeOf first ≤ now then
      if s.semaphore then { s with loop := .obtainSlot now first } else s.start now first
    else { s with loop := .asleep (some first) (some (s.clock + (s.timeOf first - now))) }
  | none => { s with loop := .asleep none none }

def step : SchedulerEvent T → Option (Scheduler T)
  | .add worker => some (s.add worker)
  | .delete worker => some (s.delete worker)
  | .reschedule worker time => some (s.reschedule worker time)
  | .setTime worker time =>
    if worker ∈ s.queue.buffer then none else some (s.setTime worker time)
  | .tick duration => some { s with clock := s.clock + duration }
  | .timer =>
    match s.loop with
    | .asleep _ (some wakeAt) => if wakeAt ≤ s.clock then some { s with loop := .woken } else none
    | _ => none
  | .resume =>
    match s.loop with
    | .woken => some { s with loop := .scan s.clock }
    | _ => none
  | .scan =>
    match s.loop with
    | .scan now => some (s.scan now)
    | _ => none
  | .slot =>
    match s.loop with
    | .obtainSlot now first => some (s.start now first)
    | _ => none

end Scheduler

end MatterJs.Util
