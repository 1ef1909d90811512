import MatterJs.Foundation.TransitionSystem
import Mathlib.Logic.Function.Basic

/-! The confirmable requests of a CoAP client. A step ends at every `await` and at the end of every
callback. Payload encoding, NON requests, the listeners and the durations of the timers are left
out. -/
namespace MatterJs.Coap

open Function

def MAX_RETRANSMIT : Nat := 4

inductive MessageType
  | CON | NON | ACK | RST
deriving DecidableEq

structure CoapMessage where
  type : MessageType
  /-- The class and the detail of the code, `0.00` is `(0, 0)`. -/
  code : Nat × Nat
  messageId : Nat
  token : List UInt8
  payload : List UInt8 := []
deriving DecidableEq

inductive CoapFailure
  | messageIdCollision (messageId : Nat)
  | tokenCollision (token : List UInt8)
  | timeout (messageId : Nat)
  | reset (messageId : Nat)
  | channelClosed
  | sendFailed (error : String)
deriving DecidableEq

def toHex (bytes : List UInt8) : String :=
  String.ofList
    (bytes.flatMap fun b => [Nat.digitChar (b.toNat / 16), Nat.digitChar (b.toNat % 16)])

def CoapFailure.message : CoapFailure → String
  | .messageIdCollision messageId =>
    s!"CoapClient: messageId collision at {messageId} — too many concurrent CON requests"
  | .tokenCollision token => "CoapClient: token collision for " ++ toHex token
  | .timeout messageId => s!"CoAP CON messageId={messageId} timed out after MAX_RETRANSMIT"
  | .reset messageId => s!"CoAP RST received for messageId={messageId}"
  | .channelClosed => "CoapClient: channel closed"
  | .sendFailed error => error

inductive Outcome
  | resolved (response : CoapMessage)
  | rejected (failure : CoapFailure)
deriving DecidableEq

/-- A call of `#sendCon` with its closure. `sent` counts how often it was put on the channel,
`answered` says that an acknowledgement or an answer has arrived, and `late` that it was put on the
channel after that. -/
structure Request where
  messageId : Nat
  token : List UInt8
  sending : Bool := false
  retransmitTimer : Bool := false
  separateTimer : Bool := false
  attempt : Nat := 0
  outcome : Option Outcome := none
  sent : Nat := 0
  answered : Bool := false
  late : Bool := false

/-- Neither the first send nor a timer is outstanding. -/
def Request.quiet (r : Request) : Bool := !r.sending && !r.retransmitTimer && !r.separateTimer

/-- `dispatching` is the acknowledgement of an inbound CON that `#dispatchInbound` awaits, with the
request that it then resolves. -/
structure CoapClient where
  messageId : Nat
  requests : Nat → Request := fun _ => { messageId := 0, token := [] }
  count : Nat := 0
  pendingByMsgId : Nat → Option Nat := fun _ => none
  pendingByToken : List UInt8 → Option Nat := fun _ => none
  dispatching : Option (Option (Nat × CoapMessage)) := none
  closed : Bool := false

inductive Event
  | request (token : List UInt8)
  | sendResolved (i : Nat)
  | sendRejected (i : Nat) (error : String)
  | retransmitTimeout (i : Nat)
  | separateTimeout (i : Nat)
  | inbound (message : CoapMessage)
  | ackSent
  | channelClosed

namespace CoapClient

variable (s : CoapClient) (i : Nat)

def setRequest (r : Request) : CoapClient :=
  { s with requests := update s.requests i r }

/-- `state.resolve` or `state.reject`: the clean-up, then the promise, which keeps its first
outcome. -/
def settle (outcome : Outcome) : CoapClient :=
  let r := s.requests i
  { s with
    requests := update s.requests i
      { r with
        retransmitTimer := false
        separateTimer := false
        outcome := some (r.outcome.getD outcome) }
    pendingByMsgId := update s.pendingByMsgId r.messageId none
    pendingByToken := update s.pendingByToken r.token none }

def onEmptyAck : CoapClient :=
  let r := s.requests i
  { s.setRequest i { r with retransmitTimer := false, separateTimer := true, answered := true } with
    pendingByMsgId := update s.pendingByMsgId r.messageId none }

def markAnswered : CoapClient :=
  s.setRequest i { s.requests i with answered := true }

def collision (token : List UInt8) : Option CoapFailure :=
  if (s.pendingByMsgId s.messageId).isSome then some (.messageIdCollision s.messageId)
  else if (s.pendingByToken token).isSome then some (.tokenCollision token)
  else none

def request (token : List UInt8) : CoapClient :=
  let i := s.count
  let messageId := s.messageId
  let next := { s with messageId := (s.messageId + 1) % 65536, count := s.count + 1 }
  match s.collision token with
  | some failure => next.setRequest i { messageId, token, outcome := some (.rejected failure) }
  | none =>
    { next.setRequest i { messageId, token, sending := true, sent := 1 } with
      pendingByMsgId := update s.pendingByMsgId messageId (some i)
      pendingByToken := update s.pendingByToken token (some i) }

def retransmitTimeout (i : Nat) : CoapClient :=
  let r := { s.requests i with retransmitTimer := false }
  if (s.pendingByMsgId r.messageId).isNone then s.setRequest i r
  else if r.attempt ≥ MAX_RETRANSMIT then
    (s.setRequest i r).settle i (.rejected (.timeout r.messageId))
  else s.setRequest i { r with
    attempt := r.attempt + 1
    sent := r.sent + 1
    late := r.late || r.answered
    retransmitTimer := true }

def dispatchInbound (message : CoapMessage) : CoapClient :=
  match message.type with
  | .ACK =>
    match s.pendingByMsgId message.messageId with
    | none => s
    | some i =>
      if message.code = (0, 0) ∧ message.payload = [] then s.onEmptyAck i
      else (s.markAnswered i).settle i (.resolved message)
  | .RST =>
    match s.pendingByMsgId message.messageId with
    | none => s
    | some i => s.settle i (.rejected (.reset message.messageId))
  | .CON =>
    match s.pendingByToken message.token with
    | some i => { s.markAnswered i with dispatching := some (some (i, message)) }
    | none => { s with dispatching := some none }
  | .NON =>
    match s.pendingByToken message.token with
    | some i => (s.markAnswered i).settle i (.resolved message)
    | none => s

/-- The end of the receive loop rejects what is outstanding. -/
def rejectAll : CoapClient :=
  (List.range s.count).foldl (fun t i =>
    if t.pendingByToken (t.requests i).token = some i then
      t.settle i (.rejected .channelClosed) else t) s

def step : Event → Option CoapClient
  | .request token => some (s.request token)
  | .sendResolved i =>
    if i < s.count ∧ (s.requests i).sending then
      some (s.setRequest i { s.requests i with sending := false, retransmitTimer := true })
    else none
  | .sendRejected i error =>
    if i < s.count ∧ (s.requests i).sending then
      some ((s.setRequest i { s.requests i with sending := false }).settle i
        (.rejected (.sendFailed error)))
    else none
  | .retransmitTimeout i =>
    if i < s.count ∧ (s.requests i).retransmitTimer then some (s.retransmitTimeout i) else none
  | .separateTimeout i =>
    if i < s.count ∧ (s.requests i).separateTimer then
      some (s.settle i (.rejected (.timeout (s.requests i).messageId)))
    else none
  | .inbound message =>
    if s.closed ∨ s.dispatching.isSome then none else some (s.dispatchInbound message)
  | .ackSent =>
    match s.dispatching with
    | none => none
    | some none => some { s with dispatching := none }
    | some (some (i, message)) => some { s.settle i (.resolved message) with dispatching := none }
  | .channelClosed =>
    if s.closed ∨ s.dispatching.isSome then none else some { s.rejectAll with closed := true }

/-- `#dispatchInbound` awaits the acknowledgement of the answer to the request. -/
def dispatchesTo (i : Nat) : Bool :=
  match s.dispatching with
  | some (some (j, _)) => j = i
  | _ => false

/-- Something of the request is outstanding. -/
def busy (i : Nat) : Bool :=
  (s.requests i).outcome.isNone || !(s.requests i).quiet || s.dispatchesTo i

/-- A message id and a token are reused only when nothing of the earlier request is outstanding, a
piggybacked response carries the token of its request, and no request is retransmitted while the
acknowledgement of its answer is sent. -/
def orderly : Event → Bool
  | .request token => (s.collision token).isSome || (List.range s.count).all fun i =>
    !s.busy i || (s.requests i).messageId ≠ s.messageId && (s.requests i).token ≠ token
  | .inbound message => message.type ≠ .ACK || (message.code = (0, 0) && message.payload = []) ||
    (s.pendingByMsgId message.messageId).all fun i => (s.requests i).token = message.token
  | .retransmitTimeout i => !s.dispatchesTo i
  | _ => true

end CoapClient

end MatterJs.Coap
