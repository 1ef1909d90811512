import MatterJs.Foundation.TransitionSystem

/-! One failsafe context. Every `await` of the source ends a step, so a call that is under way is
the place where it waits. -/
namespace MatterJs.Failsafe

/-- The construction's status. `armed` is the end of the initializer, which has started the timer
but whose completion the construction has not seen yet; a crashed context is `active` too, since
`close` treats the two alike. -/
inductive Lifecycle
  | constructing
  | armed
  | active
  | destroying
  | destroyed
deriving DecidableEq

structure FailsafeTimer where
  completed : Bool
  /-- The failsafe timer runs. -/
  isRunning : Bool
  /-- The cumulative timer runs. -/
  maxIsRunning : Bool
  /-- The index of the associated fabric. -/
  associatedFabric : Option Nat

/-- Where a call of `completeCommission` waits. -/
inductive Completion
  | persisting
  | emitting
  | closingPase
deriving DecidableEq

/-- Where the destructor that `close` runs waits. `found` is whether the fabric manager had the
fabric that was built. -/
inductive Destruction
  | stopping
  | revoking
  | closingPase
  | closingSessions (found : Bool)
  | restoringNetwork (found : Bool)
  | restoringFabric (found : Bool)
  | deleting
  | restoringBreadcrumb
deriving DecidableEq

/-- An AddNOC or UpdateNOC whose fabric is built, and then is in the fabric manager. -/
inductive Noc
  | building (forUpdate : Bool)
  | added
  | replaced
deriving DecidableEq

/-- What the context has done to the world. -/
inductive Effect
  | persisted
  | commissioned
  | rolledBack
  | removedFabric
  | restoredFabric
deriving DecidableEq

structure Context where
  lifecycle : Lifecycle
  /-- The calls of `close` that wait for the construction. -/
  waiting : Nat
  failsafe : Option FailsafeTimer
  /-- The handler of `closedByPeer` is attached. -/
  listening : Bool
  associatedFabric : Option Nat
  fabricIndex : Option Nat
  forUpdateNoc : Option Bool
  noc : Option Noc
  completions : List Completion
  destruction : Option Destruction
  /-- Oldest first. -/
  effects : List Effect

def Context.new (fabric : Option Nat) : Context where
  lifecycle := .constructing
  waiting := 0
  failsafe := none
  listening := false
  associatedFabric := fabric
  fabricIndex := none
  forUpdateNoc := none
  noc := none
  completions := []
  destruction := none
  effects := []

inductive Event
  /-- The initializer arms the timer, or fails. -/
  | arm
  | crash
  /-- The construction becomes active. -/
  | constructed
  /-- ArmFailSafe on the armed context. -/
  | extend (fabric : Option Nat) (expiryIsZero : Bool)
  | timer
  | maxTimer
  | closedByPeer
  | close
  | completeCommission
  /-- What the calls of `completeCommission` wait for. -/
  | persisted (call : Nat)
  | persistFailed (call : Nat)
  | emitted (call : Nat)
  | emitFailed (call : Nat)
  | paseClosed (call : Nat)
  /-- CSRRequest, AddNOC and UpdateNOC. -/
  | createCertificateSigningRequest (isForUpdateNoc : Bool)
  | build (fabricIndex : Nat) (forUpdate : Bool)
  | install
  | nocReturned
  | nocFailed
  /-- What the destructor waits for; `found` is the fabric manager's answer where it is asked. -/
  | advance (found : Bool)
  | rollbackFailed

variable (timer : FailsafeTimer)

def FailsafeTimer.complete : FailsafeTimer :=
  { timer with completed := true, isRunning := false, maxIsRunning := false }

def FailsafeTimer.close : FailsafeTimer :=
  { timer with isRunning := false, maxIsRunning := false }

namespace Context

variable (s : Context)

def note (effect : Effect) : Context :=
  { s with effects := s.effects ++ [effect] }

/-- The destructor up to its first `await`. -/
def beginDestruction : Context :=
  match s.failsafe with
  | none => { s with waiting := 0, listening := false, lifecycle := .destroyed }
  | some timer =>
    { s with
      waiting := 0
      listening := false
      lifecycle := .destroying
      failsafe := some timer.close
      destruction := some .stopping }

def close : Context :=
  match s.lifecycle with
  | .constructing | .armed => { s with waiting := s.waiting + 1 }
  | .active => s.beginDestruction
  | .destroying | .destroyed => s

/-- `FailsafeTimer.expire`, whose callback closes the context. -/
def expire : Context :=
  if timer.completed then s else { s with failsafe := some timer.complete }.close

def reArm (fabric : Option Nat) (expiryIsZero : Bool) :
    Context :=
  if !timer.isRunning then s
  else if timer.associatedFabric ≠ fabric then s
  else if expiryIsZero then s.expire { timer with isRunning := false }
  else { s with failsafe := some { timer with isRunning := true } }

/-- Begins `commissioned.emit()`. -/
def commission : Context :=
  { s.note .commissioned with failsafe := none }

def completeCommission : Context :=
  match s.failsafe with
  | none => s
  | some timer =>
    let s := { s with failsafe := some timer.complete }
    if s.fabricIndex.isSome then { s with completions := s.completions ++ [.persisting] }
    else { s.commission with completions := s.completions ++ [.emitting] }

/-- A call of `completeCommission` that waits there. -/
def awaits (call : Nat) (completion : Completion) : Bool :=
  s.completions[call]? == some completion

def deleteFabric : Context :=
  if s.associatedFabric.isSome then s.note .removedFabric else s

/-- The last steps of `rollback`, from the test for an added fabric on. -/
def finishRollback (found : Bool) : Context :=
  if s.forUpdateNoc ≠ some true ∧ found then
    { s.deleteFabric with destruction := some .deleting }
  else { s with destruction := some .restoringBreadcrumb }

/-- One `await` of the destructor. -/
def destruct (found : Bool) : Destruction → Context
  | .stopping =>
    let s := { s.note .rolledBack with failsafe := none }
    if s.fabricIndex.isSome ∧ s.forUpdateNoc ≠ some true then
      { s.deleteFabric with destruction := some .revoking }
    else { s with destruction := some .closingPase }
  | .revoking => { s with destruction := some .closingPase }
  | .closingPase =>
    { s with destruction := some (.closingSessions (s.fabricIndex.isSome && found)) }
  | .closingSessions found => { s with destruction := some (.restoringNetwork found) }
  | .restoringNetwork found =>
    if s.forUpdateNoc = some true ∧ s.associatedFabric.isSome then
      { s.note .restoredFabric with destruction := some (.restoringFabric found) }
    else s.finishRollback found
  | .restoringFabric found => s.finishRollback found
  | .deleting => { s with destruction := some .restoringBreadcrumb }
  | .restoringBreadcrumb => { s with destruction := none, lifecycle := .destroyed }

def install (forUpdate : Bool) : Context :=
  if forUpdate then { s with noc := some .replaced }
  else
    { s with
      noc := some .added
      associatedFabric := s.fabricIndex
      failsafe := s.failsafe.map ({ · with associatedFabric := s.fabricIndex }) }

def undo : Noc → Context
  | .building _ => { s with noc := none }
  | .added => { s.note .removedFabric with noc := none }
  | .replaced => { s.note .restoredFabric with noc := none }

/-- The construction is over, and a `close` that waits for it goes on. -/
def construct : Context :=
  if s.waiting = 0 then { s with lifecycle := .active } else s.beginDestruction

def step : Event → Option Context
  | .arm =>
    if s.lifecycle = .constructing then
      some { s with
        lifecycle := .armed
        failsafe := some ⟨false, true, true, s.associatedFabric⟩
        listening := true }
    else none
  | .crash =>
    if s.lifecycle = .constructing then some s.construct else none
  | .constructed =>
    if s.lifecycle = .armed then some s.construct else none
  | .extend fabric expiryIsZero =>
    match s.lifecycle, s.failsafe with
    | .constructing, _ | .armed, _ => none
    | _, none => some s
    | _, some timer => some (s.reArm timer fabric expiryIsZero)
  | .timer =>
    match s.failsafe with
    | none => none
    | some timer =>
      if timer.isRunning then some (s.expire { timer with isRunning := false }) else none
  | .maxTimer =>
    match s.failsafe with
    | none => none
    | some timer =>
      if timer.maxIsRunning then some (s.expire { timer with maxIsRunning := false }) else none
  | .closedByPeer =>
    if s.listening then
      some (if s.failsafe.any (·.completed) then s else s.close)
    else none
  | .close => some s.close
  | .completeCommission => some s.completeCommission
  | .persisted call =>
    if s.awaits call .persisting then
      some { (s.note .persisted).commission with
        completions := s.completions.set call .emitting }
    else none
  | .persistFailed call =>
    if s.awaits call .persisting then
      some { s with completions := s.completions.eraseIdx call }
    else none
  | .emitted call =>
    if s.awaits call .emitting then
      some { s with completions := s.completions.set call .closingPase }
    else none
  | .emitFailed call =>
    if s.awaits call .emitting then
      some { s with completions := s.completions.eraseIdx call }
    else none
  | .paseClosed call =>
    if s.awaits call .closingPase then
      some { s with completions := s.completions.eraseIdx call }.close
    else none
  | .createCertificateSigningRequest isForUpdateNoc =>
    some { s with forUpdateNoc := some isForUpdateNoc }
  | .build fabricIndex forUpdate =>
    if s.fabricIndex.isNone then
      some { s with fabricIndex := some fabricIndex, noc := some (.building forUpdate) }
    else none
  | .install =>
    match s.noc with
    | some (.building forUpdate) => some (s.install forUpdate)
    | _ => none
  | .nocReturned =>
    match s.noc with
    | none => none
    | some _ => some { s with noc := none }
  | .nocFailed => s.noc.map s.undo
  | .advance found => s.destruction.map (s.destruct found)
  | .rollbackFailed =>
    match s.destruction with
    | none | some .stopping => none
    | some _ => some { s with destruction := none, lifecycle := .destroyed }

end Context

end MatterJs.Failsafe
