import MatterJs.Foundation.TransitionSystem
import Mathlib.Logic.Function.Basic

/-! The PASE server of a commissioning window, with every call of `onNewExchange` that is under
way. Every `await` of the source ends a step. -/
namespace MatterJs.Pase

def paseCommissioningMaxErrors : Nat := 20

/-- Where a call of `onNewExchange` waits: in `handlePairingRequest`, in the cancellation after an
error, or in the clean-up of the unsecured session, after which it throws if there were too many
errors. -/
inductive Stage
  | readingPbkdfParamRequest
  | allocatingSessionId
  | sendingPbkdfParamResponse
  | hashing
  | readingPasePake1
  | computingVerifiers
  | sendingPasePake2
  | readingPasePake3
  | creatingSession
  | sendingSuccess
  | closingMessenger
  | cancelling
  | releasing (tooManyErrors : Bool)
deriving DecidableEq

namespace Stage

/-- What follows in `handlePairingRequest`. -/
def next : Stage → Option Stage
  | .readingPbkdfParamRequest => some .allocatingSessionId
  | .allocatingSessionId => some .sendingPbkdfParamResponse
  | .sendingPbkdfParamResponse => some .hashing
  | .hashing => some .readingPasePake1
  | .readingPasePake1 => some .computingVerifiers
  | .computingVerifiers => some .sendingPasePake2
  | .sendingPasePake2 => some .readingPasePake3
  | .readingPasePake3 => some .creatingSession
  | .creatingSession => some .sendingSuccess
  | .sendingSuccess => some .closingMessenger
  | .closingMessenger | .cancelling | .releasing _ => none

/-- The call is in `handlePairingRequest`. -/
def handling : Stage → Bool
  | .cancelling | .releasing _ => false
  | _ => true

/-- The attempt is in progress: its messenger is the one of the server. -/
def inProgress : Stage → Bool
  | .releasing _ => false
  | _ => true

/-- The session of the attempt is registered. -/
def registered : Stage → Bool
  | .sendingSuccess | .closingMessenger => true
  | _ => false

end Stage

/-- A registered PASE session, with the attempt that created it. -/
structure Session where
  attempt : Nat
  isClosing : Bool

structure Server where
  /-- Whether the timer is running, if there is one. -/
  pairingTimer : Option Bool
  pairingMessenger : Option Nat
  pairingErrors : Nat
  closed : Bool
  /-- The secure channel protocol hands exchanges to this server. -/
  isCommissioner : Bool
  windowOpen : Bool
  /-- The calls of `onNewExchange` that have started an attempt, by their messengers. -/
  stage : Nat → Option Stage
  nextMessenger : Nat
  sessions : List Session
  /-- The attempts that ended in an error. -/
  failed : List Nat

def Server.new : Server where
  pairingTimer := none
  pairingMessenger := none
  pairingErrors := 0
  closed := false
  isCommissioner := true
  windowOpen := true
  stage _ := none
  nextMessenger := 0
  sessions := []
  failed := []

inductive Event
  /-- A PBKDFParamRequest arrives. -/
  | newExchange
  /-- What the handling of the request waits for. -/
  | advance (messenger : Nat)
  | finish (messenger : Nat)
  | fail (messenger : Nat)
  /-- The end of the cancellation, which may throw. -/
  | cancelled (messenger : Nat)
  | cancelFailed (messenger : Nat)
  /-- The end of the clean-up, which may throw. -/
  | released (messenger : Nat)
  | releaseFailed (messenger : Nat)
  | timeout
  | endCommissioning
  | removed
  | closeSession (index : Nat)
  | sessionClosed (index : Nat)

namespace Server

variable (s : Server) (messenger : Nat)

def enter (stage : Option Stage) : Server :=
  { s with stage := Function.update s.stage messenger stage }

def hasPaseSession : Bool :=
  s.sessions.any (!·.isClosing)

def onNewExchange : Server :=
  if s.closed then s
  else if s.hasPaseSession then s
  else if s.pairingTimer = some true then s
  else if s.pairingMessenger.isSome then s
  else
    { s.enter s.nextMessenger (some .readingPbkdfParamRequest) with
      pairingMessenger := some s.nextMessenger
      pairingTimer := some true
      nextMessenger := s.nextMessenger + 1 }

/-- The session is registered when it has been created. -/
def proceed (stage next : Stage) : Server :=
  if stage = .creatingSession then
    { s.enter messenger (some next) with sessions := s.sessions ++ [⟨messenger, false⟩] }
  else s.enter messenger (some next)

/-- The `finally` block, up to its first `await`. -/
def release (tooManyErrors : Bool) : Server :=
  { s.enter messenger (some (.releasing tooManyErrors)) with
    pairingTimer := none
    pairingMessenger := none }

/-- The commissioner ends the commissioning, which closes the server. -/
def endCommissioning : Server :=
  if s.windowOpen then { s with closed := true } else s

def step : Event → Option Server
  | .newExchange => some (if s.isCommissioner then s.onNewExchange else s)
  | .advance messenger =>
    (s.stage messenger).bind (fun stage => stage.next.map (s.proceed messenger stage))
  | .finish messenger =>
    if s.stage messenger = some .closingMessenger then some (s.release messenger false) else none
  | .fail messenger =>
    if (s.stage messenger).any Stage.handling then
      some { s.enter messenger (some .cancelling) with
        pairingErrors := s.pairingErrors + 1
        failed := messenger :: s.failed }
    else none
  | .cancelled messenger =>
    if s.stage messenger = some .cancelling then
      some (s.release messenger (paseCommissioningMaxErrors ≤ s.pairingErrors))
    else none
  | .cancelFailed messenger =>
    if s.stage messenger = some .cancelling then some (s.release messenger false) else none
  | .released messenger =>
    match s.stage messenger with
    | some (.releasing false) => some (s.enter messenger none)
    | some (.releasing true) => some (s.enter messenger none).endCommissioning
    | _ => none
  | .releaseFailed messenger =>
    match s.stage messenger with
    | some (.releasing _) => some (s.enter messenger none)
    | _ => none
  | .timeout =>
    if s.pairingTimer = some true then some { s with pairingTimer := some false } else none
  | .endCommissioning => some s.endCommissioning
  | .removed =>
    if s.closed then some { s with isCommissioner := false, windowOpen := false } else none
  | .closeSession index =>
    (s.sessions[index]?).map (fun session =>
      { s with sessions := s.sessions.set index { session with isClosing := true } })
  | .sessionClosed index =>
    if (s.sessions[index]?).any (·.isClosing) then
      some { s with sessions := s.sessions.eraseIdx index }
    else none

end Server

end MatterJs.Pase
