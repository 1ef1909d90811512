import MatterJs.Foundation.TransitionSystem

/-!
# The semaphore

`Semaphore` hands out slots up to its concurrency and keeps the other callers in a queue. A grant
and an abort both settle the race that a waiting caller is in. The first one decides it, and the
caller goes on in a later continuation: until then an aborted caller is still in the queue.
-/
namespace MatterJs.Util

/-- Where a call of `obtainSlot` stands. -/
inductive Phase
  /-- In the queue, with the race undecided. -/
  | waiting
  /-- The slot decided the race, or was there at once. The continuation is pending. -/
  | granted
  /-- The slot is with the caller. -/
  | returned
  /-- An abort decided the race. The continuation is pending. -/
  | aborting
  | rejected
  deriving DecidableEq

/-- A slot belongs to the call it was made for; `released` is the flag of its closure. -/
structure WorkSlot where
  released : Bool := false
  deriving DecidableEq

structure Request where
  phase : Phase
  slot : Option WorkSlot := none
  deriving DecidableEq

variable (request : Request)

/-- The slot of the call counts as running. -/
def Request.holds : Bool := request.slot == some { released := false }

/-- The promise of a call is resolved with its slot, which an abort before it makes pointless. -/
def Request.grant : Request where
  phase := if request.phase = .waiting then .granted else request.phase
  slot := some {}

/-- The race of a waiting call is decided; for the others the abort comes too late. -/
def Request.abort : Request :=
  if request.phase = .waiting then { request with phase := .aborting } else request

/-- The calls are numbered in the order they are made. -/
structure Semaphore where
  concurrency : Nat := 1
  delay : Nat := 0
  timeout : Option Nat := none
  queue : List Nat := []
  timerRunning : Bool := false
  runningCount : Int := 0
  closed : Bool := false
  requests : List Request := []
  /-- The calls in the order their slots were granted. -/
  served : List Nat := []

inductive SemaphoreEvent
  /-- A call, with a signal that is aborted already or not. -/
  | obtainSlot (aborted : Bool)
  /-- The signal of a call is aborted. -/
  | abort (request : Nat)
  /-- The continuation of a call runs. -/
  | settle (request : Nat)
  /-- The caller closes its slot. -/
  | release (request : Nat)
  | slotTimeout (request : Nat)
  | delayTimer
  | clear
  | close

namespace Semaphore

variable (s : Semaphore)

def modifyRequest (request : Nat) (f : Request → Request) : Semaphore :=
  match s.requests[request]? with
  | some r => { s with requests := s.requests.set request (f r) }
  | none => s

def grantSlot (request : Nat) : Semaphore :=
  { s.modifyRequest request Request.grant with
    runningCount := s.runningCount + 1
    timerRunning := s.timerRunning || decide (0 < s.delay)
    served := s.served ++ [request] }

/-- `#processNextInQueue` with the `#scheduleProcessing` at its end, along the queue. -/
def processQueue (s : Semaphore) : List Nat → Semaphore
  | [] => { s with queue := [] }
  | next :: queue =>
    if (s.concurrency : Int) ≤ s.runningCount then { s with queue := next :: queue }
    else
      let s := grantSlot { s with queue } next
      if s.timerRunning ∨ queue = [] ∨ (s.concurrency : Int) ≤ s.runningCount then s
      else if s.delay = 0 then s.processQueue queue
      else { s with timerRunning := true }

def processNextInQueue : Semaphore := s.processQueue s.queue

def scheduleProcessing : Semaphore :=
  if s.timerRunning ∨ s.queue = [] ∨ (s.concurrency : Int) ≤ s.runningCount then s
  else if s.delay = 0 then s.processNextInQueue
  else { s with timerRunning := true }

def canGrantImmediately : Bool :=
  s.runningCount < s.concurrency && s.queue.isEmpty && (s.delay == 0 || !s.timerRunning)

def obtainSlot (aborted : Bool) : Semaphore :=
  if s.closed ∨ aborted then { s with requests := s.requests ++ [{ phase := .rejected }] }
  else
    let request := s.requests.length
    let s : Semaphore := { s with requests := s.requests ++ [{ phase := .waiting }] }
    if s.canGrantImmediately then s.grantSlot request
    else scheduleProcessing { s with queue := s.queue ++ [request] }

/-- The rest of `obtainSlot` after the race. -/
def settle (request : Nat) : Semaphore :=
  match s.requests[request]? with
  | some { phase := .granted, slot } =>
    { s with requests := s.requests.set request { phase := .returned, slot } }
  | some { phase := .aborting, slot } =>
    { s with
      queue := s.queue.erase request
      requests := s.requests.set request { phase := .rejected, slot } }
  | _ => s

/-- The closure of a slot: it counts once. -/
def release (request : Nat) : Semaphore :=
  match s.requests[request]? with
  | some { phase, slot := some { released := false } } =>
    scheduleProcessing { s with
      requests := s.requests.set request { phase, slot := some { released := true } }
      runningCount := s.runningCount - 1 }
  | _ => s

/-- The signal of the semaphore is aborted. -/
def abortAll : Semaphore := { s with requests := s.requests.map Request.abort }

def clear : Semaphore :=
  { (if s.queue = [] then s else s.abortAll) with queue := [] }

def close : Semaphore :=
  { (abortAll { s with closed := true }).clear with timerRunning := false }

def step : SemaphoreEvent → Option Semaphore
  | .obtainSlot aborted => some (s.obtainSlot aborted)
  | .abort request => some (s.modifyRequest request Request.abort)
  | .settle request => some (s.settle request)
  | .release request =>
    match s.requests[request]? with
    | some { phase := .returned, .. } => some (s.release request)
    | _ => none
  | .slotTimeout request =>
    match s.timeout, s.requests[request]? with
    | some _, some { slot := some { released := false }, .. } => some (s.release request)
    | _, _ => none
  | .delayTimer =>
    if s.timerRunning then some (processNextInQueue { s with timerRunning := false }) else none
  | .clear => some s.clear
  | .close => some s.close

end Semaphore

end MatterJs.Util
