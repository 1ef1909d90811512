import MatterJs.Foundation.DepthFirst
import MatterJs.Foundation.TransitionSystem
import Mathlib.Data.List.Dedup

/-!
# Transactions and their locks

`Tx` and `ResourceSet`, for any number of transactions over any resources. A call runs to its next
`await`; what comes after it is a step of its own. The hooks of the participants are what the
phases of a commit or a rollback wait for; they succeed or fail.
-/
namespace MatterJs.Transaction

inductive Status
  | readOnly
  | shared
  | waiting
  | exclusive
  | settled
  | committingPhaseOne
  | committingPhaseTwo
  | rollingBack
  | concluding
  | destroyed
  deriving DecidableEq

/-- What `acquireLocks` is called for. -/
inductive Purpose
  | begin
  | addResources (rs : List Nat)
  deriving DecidableEq

/-- Where a call of `acquireLocks` stands. -/
inductive Stage
  /-- It waits for other transactions. -/
  | waiting
  /-- The promise of `waitFor` is resolved; its `finally` is to run. -/
  | resolved
  /-- The next round of the loop is to run. -/
  | ready
  /-- The locks are taken; the caller is to go on. -/
  | locked
  /-- An error was thrown; the caller is to go on. -/
  | failed
  | done
  deriving DecidableEq

/-- A call of `acquireLocks`, with the resources its set locks. The transactions it waits for have
the number of their resets at that time beside them. -/
structure Request where
  purpose : Purpose
  resources : List Nat
  stage : Stage
  others : List (Nat × Nat) := []

/-- Where a commit or a rollback stands. -/
inductive Pc
  | preCommit
  | settled
  /-- The values are settled; `#finalize` is to run. -/
  | enterCommit
  | phaseOne
  | phaseTwo
  | rolling
  /-- The `#reset` at the end of `#finalize` is to run. -/
  | resetting (committed : Bool)
  | postCommit
  /-- The outcome is to be reported. -/
  | conclude
  /-- The conclusion hooks run. -/
  | concluding (previous : Status)
  | done
  deriving DecidableEq

structure Process where
  pc : Pc
  /-- The number of the commit cycle. -/
  count : Nat := 1
  /-- The cycles around this one, which report after it. -/
  outer : Nat := 0
  /-- The transaction is disposed of at the end. -/
  disposes : Bool := false

/-- A listener of `onShared`. -/
inductive Listener
  /-- The callback of `waitFor`, for a request of a transaction. It is called once. -/
  | waiter (tx request : Nat)
  /-- Any other one. Unless it is quiet, it returns something, which ends the emission. -/
  | other (quiet once : Bool)
  deriving DecidableEq

structure Tx where
  status : Status := .shared
  resources : List Nat := []
  /-- The request whose set of transactions is `waitingOn`. -/
  waitingOn : Option Nat := none
  listeners : List Listener := []
  requests : List Request := []
  processes : List Process := []
  resets : Nat := 0

def MAX_CHAINED_COMMITS : Nat := 5

namespace Tx

variable (tx : Tx)

def setRequest (k : Nat) (request : Request) : Tx :=
  { tx with requests := tx.requests.set k request }

def setProcess (p : Nat) (process : Process) : Tx :=
  { tx with processes := tx.processes.set p process }

/-- `#assertAvailable` does not throw. -/
def isAvailable : Bool := tx.status != .destroyed && tx.status != .readOnly

/-- The callback of `waitFor`: another transaction has returned to shared. -/
def wake (k other : Nat) : Tx :=
  match tx.requests[k]? with
  | some request =>
    let others := request.others.filter (·.1 != other)
    if others = [] then
      let stage := if request.stage = .waiting then .resolved else request.stage
      { tx.setRequest k { request with others, stage } with waitingOn := none }
    else tx.setRequest k { request with others }
  | none => tx

def waitsFor : List Nat :=
  match tx.waitingOn.bind (fun k => tx.requests[k]?) with
  | some request => request.others.map Prod.fst
  | none => []

end Tx

/-- The transactions are numbered below `count`. -/
structure System where
  count : Nat
  /-- `Resource.reference`, followed to its end. -/
  reference : Nat → Nat
  tx : Nat → Tx
  lockedBy : Nat → Option Nat := fun _ => none

inductive TxEvent
  | addResources (t : Nat) (rs : List Nat)
  | addResourcesSync (t : Nat) (rs : List Nat)
  | lock (t : Nat) (rs : List Nat)
  | begin (t : Nat)
  | beginSync (t : Nat)
  | onShared (t : Nat) (quiet once : Bool)
  /-- A call of `acquireLocks`, or its caller, goes on. -/
  | goOn (t request : Nat)
  | commit (t : Nat)
  | rollback (t : Nat)
  | reject (t : Nat)
  | dispose (t : Nat)
  /-- The hooks of a phase have succeeded or failed; the next phase has hooks or not. -/
  | proceed (t process : Nat) (ok hooks : Bool)

namespace TxEvent

def tx : TxEvent → Nat
  | addResources t _ | addResourcesSync t _ | lock t _ | begin t | beginSync t | onShared t _ _
  | goOn t _ | commit t | rollback t | reject t | dispose t | proceed t _ _ _ => t

end TxEvent

namespace System

def initial (count : Nat) (reference : Nat → Nat) (isReadOnly : Nat → Bool) : System where
  count := count
  reference := reference
  tx := fun t => { status := if isReadOnly t then .readOnly else .shared }

variable (s : System) (t : Nat)

def setTx (tx : Tx) : System := { s with tx := Function.update s.tx t tx }

def setStatus (status : Status) : System :=
  s.setTx t { s.tx t with status }

/-! ### Resource sets -/

variable (rs : List Nat)

/-- The resources that a `ResourceSet` is made of. -/
def resourceSet : List Nat := rs.map s.reference

/-- The transactions that hold locks on the resources. -/
def blockedBy : List Nat :=
  (rs.filterMap (fun r => (s.lockedBy r).filter (· != t))).dedup

def lockableSync : Bool :=
  rs.all (fun r => s.lockedBy r == none || s.lockedBy r == some t)

/-- The search of `#detectDeadlock`, along what the transactions wait for. -/
def detectDeadlock (blockedBy : List Nat) : Bool :=
  DepthFirst.search (fun u => (s.tx u).waitsFor) t (s.count + 1) blockedBy []

def takeLocks : System :=
  { s with lockedBy := fun r => if r ∈ rs then some t else s.lockedBy r }

def releaseLocks : System :=
  { s with
    lockedBy := fun r => if r ∈ rs ∧ s.lockedBy r = some t then none else s.lockedBy r }

/-- How a round of the loop of `acquireLocks` ends. -/
inductive Outcome
  | locked
  | deadlock
  /-- `waitFor` throws: the transaction is destroyed. -/
  | unavailable
  /-- `waitFor` throws: the transaction is already waiting. -/
  | alreadyWaiting
  | wait (others : List Nat)
  deriving DecidableEq

def acquireLocks : Outcome :=
  let blockedBy := s.blockedBy t rs
  if blockedBy = [] then .locked
  else if s.detectDeadlock t blockedBy then .deadlock
  else if !(s.tx t).isAvailable then .unavailable
  else if (s.tx t).waitingOn.isSome then .alreadyWaiting
  else .wait blockedBy

/-- `waitFor`: the request waits, and is told when the others return to shared. -/
def waitFor (t k : Nat) (request : Request) (others : List Nat) : System :=
  let listen := fun u =>
    if u ∈ others ∧ (s.tx u).status ≠ .readOnly then
      { s.tx u with listeners := (s.tx u).listeners ++ [.waiter t k] }
    else s.tx u
  { s with
    tx := Function.update listen t
      { (listen t).setRequest k { request with
          stage := .waiting
          others := others.map (fun u => (u, (s.tx u).resets)) } with
        waitingOn := some k } }

/-- One round of the loop for a request. -/
def round (t k : Nat) (request : Request) : System :=
  match s.acquireLocks t request.resources with
  | .locked =>
    (s.takeLocks t request.resources).setTx t
      ((s.tx t).setRequest k { request with stage := .locked })
  | .wait others => s.waitFor t k request others
  | _ => s.setTx t ((s.tx t).setRequest k { request with stage := .failed })

def request (purpose : Purpose) (rs : List Nat) : System :=
  let request : Request := { purpose, resources := s.resourceSet rs, stage := .ready }
  let k := (s.tx t).requests.length
  (s.setTx t { s.tx t with requests := (s.tx t).requests ++ [request] }).round t k request

/-! ### Becoming exclusive -/

def putResources : System :=
  s.setTx t { s.tx t with resources := (s.tx t).resources ++ rs }

/-- Nothing changes where an error is thrown. -/
def addResourcesSync : System :=
  match (s.tx t).status with
  | .exclusive =>
    if s.lockableSync t (s.resourceSet rs) then
      (s.takeLocks t (s.resourceSet rs)).putResources t rs
    else s
  | .shared => s.putResources t rs
  | _ => s

def addResources : System :=
  match (s.tx t).status with
  | .exclusive => s.request t (.addResources rs) rs
  | _ => s.addResourcesSync t rs

def begin : System :=
  match (s.tx t).status with
  | .shared => (s.setStatus t .waiting).request t .begin (s.tx t).resources
  | _ => s

def beginSync : System :=
  match (s.tx t).status with
  | .shared =>
    if s.lockableSync t (s.resourceSet (s.tx t).resources) then
      (s.takeLocks t (s.resourceSet (s.tx t).resources)).setStatus t .exclusive
    else s
  | _ => s

/-- Where the locks are not free, `#lockAsync` adds the resources, and its `begin` is a call of its
own. -/
def lock : System :=
  if s.lockableSync t (s.resourceSet ((s.tx t).resources ++ rs)) then
    match (s.tx t).status with
    | .exclusive | .shared => (s.addResourcesSync t rs).beginSync t
    | _ => s
  else s.addResources t rs

/-- A request goes on: the `finally` of `waitFor`, the next round, or its caller. -/
def goOn (t k : Nat) : Option System :=
  (s.tx t).requests[k]?.bind (fun request =>
    match request.stage with
    | .resolved =>
      some (s.setTx t
        { (s.tx t).setRequest k { request with stage := .ready } with waitingOn := none })
    | .ready => some (s.round t k request)
    | .locked =>
      let s := s.setTx t ((s.tx t).setRequest k { request with stage := .done })
      match request.purpose with
      | .begin => some (s.setStatus t .exclusive)
      | .addResources rs => some (s.addResourcesSync t rs)
    | .failed =>
      let s := s.setTx t ((s.tx t).setRequest k { request with stage := .done })
      match request.purpose with
      | .begin => some (s.setStatus t .shared)
      | .addResources _ => some s
    | .waiting | .done => none)

/-! ### Returning to shared -/

/-- The listeners are called in turn, until one returns something. -/
def emit (s : System) (u : Nat) : List Listener → System
  | [] => s
  | .waiter t k :: listeners =>
    let s := s.setTx u { s.tx u with listeners := (s.tx u).listeners.erase (.waiter t k) }
    (s.setTx t ((s.tx t).wake k u)).emit u listeners
  | .other quiet once :: listeners =>
    let s :=
      if once then
        s.setTx u { s.tx u with listeners := (s.tx u).listeners.erase (.other quiet once) }
      else s
    if quiet then s.emit u listeners else s

def reset : System :=
  let s := s.releaseLocks t (s.resourceSet (s.tx t).resources)
  let s := s.setTx t
    { s.tx t with resources := [], status := .shared, resets := (s.tx t).resets + 1 }
  s.emit t (s.tx t).listeners

def dispose : System := (s.reset t).setStatus t .destroyed

/-! ### Commit and rollback -/

def setProcess (t p : Nat) (process : Process) : System :=
  s.setTx t ((s.tx t).setProcess p process)

/-- The cycle is over; the one around it reports next. -/
def finishCycle (t p : Nat) (process : Process) : System :=
  if 0 < process.outer then
    s.setProcess t p { process with pc := .conclude, outer := process.outer - 1 }
  else
    let s := s.setProcess t p { process with pc := .done }
    if process.disposes then s.dispose t else s

/-- The test of `#finalize` on the status. -/
def mayFinalize : Bool :=
  (s.tx t).status == .shared || (s.tx t).status == .exclusive

/-- `#rollbackAndConclude`. Where `#finalize` throws there is no outcome to report. -/
def rollbackAndConclude (t p : Nat) (process : Process) : System :=
  if s.mayFinalize t then
    (s.setStatus t .rollingBack).setProcess t p { process with pc := .rolling }
  else s.finishCycle t p process

/-- The `restore` functions. -/
def restore (during previous : Status) : System :=
  if (s.tx t).status = during then s.setStatus t previous else s

def proceed (t p : Nat) (ok hooks : Bool) : Option System :=
  (s.tx t).processes[p]?.bind (fun process =>
    match process.pc with
    | .preCommit =>
      if ok then
        if hooks then
          some ((s.setStatus t .settled).setProcess t p { process with pc := .settled })
        else some (s.setProcess t p { process with pc := .enterCommit })
      else some (s.rollbackAndConclude t p process)
    | .settled =>
      let s := s.restore t .settled .exclusive
      if ok then some (s.setProcess t p { process with pc := .enterCommit })
      else some (s.rollbackAndConclude t p process)
    | .enterCommit =>
      if s.mayFinalize t then
        some ((s.setStatus t .committingPhaseOne).setProcess t p { process with pc := .phaseOne })
      else some (s.setProcess t p { process with pc := .conclude })
    | .phaseOne =>
      if ok then
        some ((s.setStatus t .committingPhaseTwo).setProcess t p { process with pc := .phaseTwo })
      else some ((s.setStatus t .rollingBack).setProcess t p { process with pc := .rolling })
    | .phaseTwo => some (s.setProcess t p { process with pc := .resetting ok })
    | .rolling =>
      some ((s.setStatus t .shared).setProcess t p { process with pc := .resetting false })
    | .resetting committed =>
      let pc : Pc := if committed then .postCommit else .conclude
      some ((s.setProcess t p { process with pc }).reset t)
    | .postCommit =>
      if (s.tx t).status = .exclusive then
        if process.count + 1 > MAX_CHAINED_COMMITS then
          some (s.setProcess t p { process with pc := .conclude })
        else
          some (s.setProcess t p { process with
            pc := .preCommit, count := process.count + 1, outer := process.outer + 1 })
      else some (s.setProcess t p { process with pc := .conclude })
    | .conclude =>
      if hooks then
        let previous := (s.tx t).status
        some ((s.setStatus t .concluding).setProcess t p { process with
          pc := .concluding previous })
      else some (s.finishCycle t p process)
    | .concluding previous =>
      some ((s.restore t .concluding previous).finishCycle t p process)
    | .done => none)

def addProcess (process : Process) : System :=
  s.setTx t { s.tx t with processes := (s.tx t).processes ++ [process] }

/-- `rollback`, with the disposal that `reject` makes of it. -/
def rollback (disposes : Bool) : System :=
  if (s.tx t).isAvailable && s.mayFinalize t then
    (s.setStatus t .rollingBack).addProcess t { pc := .rolling, disposes }
  else if disposes then s.dispose t
  else s

def commit : System :=
  match (s.tx t).status with
  | .shared => s.rollback t false
  | .destroyed | .readOnly => s
  | _ => s.addProcess t { pc := .preCommit }

def reject : System :=
  match (s.tx t).status with
  | .shared => (s.reset t).dispose t
  | _ => s.rollback t true

def onShared (quiet once : Bool) : System :=
  match (s.tx t).status with
  | .readOnly => s
  | _ => s.setTx t { s.tx t with listeners := (s.tx t).listeners ++ [.other quiet once] }

def act : TxEvent → Option System
  | .addResources t rs => some (s.addResources t rs)
  | .addResourcesSync t rs => some (s.addResourcesSync t rs)
  | .lock t rs => some (s.lock t rs)
  | .begin t => some (s.begin t)
  | .beginSync t => some (s.beginSync t)
  | .onShared t quiet once => some (s.onShared t quiet once)
  | .goOn t request => s.goOn t request
  | .commit t => some (s.commit t)
  | .rollback t => some (s.rollback t false)
  | .reject t => some (s.reject t)
  | .dispose t => some (s.dispose t)
  | .proceed t process ok hooks => s.proceed t process ok hooks

def step (event : TxEvent) : Option System :=
  if event.tx < s.count then s.act event else none

end System

end MatterJs.Transaction
