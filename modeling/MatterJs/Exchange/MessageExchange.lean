import Mathlib.Tactic.Common

/-!
# Message exchanges

A message exchange with its retransmission logic. Each function runs a method up to its
next `await`; what is left of the call is a task, resumed when the promise it waits for has
settled. Durations the channel computes are inputs of a step.
-/
namespace MatterJs.Exchange

def secureChannelProtocolId : Nat := 0x0000

def bdxProtocolId : Nat := 2

namespace SecureMessageType

def standaloneAck : Nat := 0x10

def statusReport : Nat := 0x40

variable (protocolId messageType : Nat)

def isStandaloneAck : Bool :=
  protocolId = secureChannelProtocolId && messageType = standaloneAck

def isStatusReport : Bool :=
  protocolId = secureChannelProtocolId && messageType = statusReport

end SecureMessageType

namespace Mrp

def maxTransmissions : Nat := 5

/-- In milliseconds. -/
def defaultExpectedProcessingTime : Nat := 2000

end Mrp

/-- A session; the key tells two objects with the same data apart. -/
inductive Session
  | unsecured (initiatorNodeId key : Nat)
  | node (id key : Nat)
  | group (id key : Nat)
  deriving DecidableEq

namespace Session

def unicastUnsecureSessionId : Nat := 0

def id : Session → Nat
  | .unsecured .. => unicastUnsecureSessionId
  | .node id _ | .group id _ => id

def isSecure : Session → Bool
  | .unsecured .. => false
  | .node .. | .group .. => true

end Session

/-- The headers of a message. A message that is sent has a key for its object. -/
structure Message where
  key : Nat := 0
  messageId : Nat
  exchangeId : Nat
  protocolId : Nat
  messageType : Nat
  isInitiatorMessage : Bool
  requiresAck : Bool
  ackedMessageId : Option Nat := none
  deriving DecidableEq

def Message.isStandaloneAck (message : Message) : Bool :=
  SecureMessageType.isStandaloneAck message.protocolId message.messageType

def Message.isStatusReport (message : Message) : Bool :=
  SecureMessageType.isStatusReport message.protocolId message.messageType

structure ExchangeSendOptions where
  expectAckOnly : Bool := false
  suppressAck : Bool := false
  disableMrpLogic : Bool := false
  expectedProcessingTime : Option Nat := none
  maxRetransmissions : Option Nat := none

/-- The number of transmissions the options allow. -/
def ExchangeSendOptions.limit (options : ExchangeSendOptions) : Nat :=
  options.maxRetransmissions.getD Mrp.maxTransmissions

/-- What the clock and the channel tell a step: the time, the backoff before the next transmission,
and the time in which the peer should have answered. -/
structure Clock where
  now : Nat := 0
  backOff : Nat := 0
  maximumPeerResponseTime : Nat := 0

/-- A timer for the retransmission of a message. -/
structure RetransmissionTimer where
  message : Message
  expectedProcessingTime : Option Nat
  interval : Nat
  isRunning : Bool

structure CloseTimer where
  cause : Bool
  isRunning : Bool

/-- The promise of an acknowledgement, and whether its call was aborted. -/
structure AckPromise where
  resolved : Option (Option Message) := none
  aborted : Bool := false

/-- The call that waits for a `#send`. -/
inductive Caller
  | send
  /-- `onMessageReceived`, which sends the acknowledgement of an earlier message first. -/
  | received (message : Message)
  | close (cause : Bool)
  | destroy
  /-- A call that ends with it. -/
  | other

/-- What a `#send` has read before its first `await`. The limit is that of the options. -/
structure Sending where
  messageType : Nat
  isStandaloneAck : Bool
  requiresAck : Bool
  protocolId : Nat
  ackedMessageId : Option Nat
  expectAckOnly : Bool
  disableMrpLogic : Bool
  expectedProcessingTime : Nat
  limit : Nat
  caller : Caller

/-- Whether the retransmission logic takes care of the message. -/
def Sending.isReliable (sending : Sending) : Bool := sending.requiresAck && !sending.disableMrpLogic

/-- Where a call waits. -/
inductive Task
  /-- `#send` for the next message counter. -/
  | counter (sending : Sending)
  /-- `#send` for the channel. -/
  | channelSend (sending : Sending) (message : Message) (ackPromise : Option AckPromise)
  /-- `#send` for the acknowledgement. -/
  | waitForAck (sending : Sending) (message : Message) (ackPromise : AckPromise)
  /-- The channel for a retransmission. -/
  | retransmission (message : Message) (backOff : Nat) (expectedProcessingTime : Option Nat)
  /-- `close` for the observers of `closing`. -/
  | closing (cause : Bool)

/-- The promise of the call that sent a message changes. -/
def Task.setPromise (key : Nat) (f : AckPromise → AckPromise) : Task → Task
  | .channelSend sending message (some promise) =>
    .channelSend sending message (some (if message.key = key then f promise else promise))
  | .waitForAck sending message promise =>
    .waitForAck sending message (if message.key = key then f promise else promise)
  | task => task

/-- What happens to the messages of an exchange, by their keys. -/
inductive LogEntry
  /-- A reliable message is sent, with its limit. -/
  | initial (key limit : Nat)
  | retransmission (key : Nat)
  /-- The reply is sent again for a message that was received again. -/
  | resent (key : Nat)
  /-- A message is sent of which no acknowledgement is awaited. -/
  | unreliable (key : Nat)
  | acked (key : Nat)
  deriving DecidableEq

/-- What an exchange reads of its session: whether it uses MRP, the intervals of the peer, and the
delay of the networks. -/
structure SessionParameters where
  usesMrp : Bool
  activeInterval : Nat := 0
  activeThreshold : Nat := 0
  sendAdditionalDelay : Nat := 0

structure MessageExchange where
  session : Session
  parameters : SessionParameters
  isInitiator : Bool
  exchangeId : Nat
  protocolId : Nat
  receivedMessageToAck : Option Message := none
  receivedMessageAckTimer : Bool := false
  closeTimer : Option CloseTimer := none
  closeCause : Bool := false
  isDestroyed : Bool := false
  used : Bool
  closed : Bool := false
  closing : Bool := false
  sentMessageToAck : Option Message := none
  /-- The messages whose calls the two functions settle. -/
  sentMessageAckSuccess : Option Nat := none
  sentMessageAckFailure : Option Nat := none
  sendOptions : ExchangeSendOptions := {}
  retransmissionCounter : Nat := 0
  /-- The index of the current timer. -/
  retransmissionTimer : Option Nat := none
  timers : List RetransmissionTimer := []
  lastTransmissionAt : Option Nat := none
  lastActive : Nat
  messagesQueue : List Message := []
  tasks : List Task := []
  nextKey : Nat := 0
  log : List LogEntry := []

namespace MessageExchange

def fromInitialMessage (session : Session) (parameters : SessionParameters)
    (initialMessage : Message) (now : Nat) : MessageExchange where
  session
  parameters
  isInitiator := false
  exchangeId := initialMessage.exchangeId
  protocolId := initialMessage.protocolId
  used := true
  lastActive := now

def initiate (session : Session) (parameters : SessionParameters)
    (exchangeId protocolId now : Nat) : MessageExchange where
  session
  parameters
  isInitiator := true
  exchangeId
  protocolId
  used := false
  lastActive := now

variable (x : MessageExchange)

def usesMrp : Bool := x.parameters.usesMrp

def considerClosed : Bool := x.closed || (x.isInitiator && x.closing)

def notifyActivity (now : Nat) : MessageExchange := { x with lastActive := now }

section Timers

def setTimer (index : Nat) (isRunning : Bool) : MessageExchange :=
  { x with timers := x.timers.modify index (fun timer => { timer with isRunning }) }

/-- The current timer is started or stopped, if there is one. -/
def setRetransmissionTimer (isRunning : Bool) : MessageExchange :=
  match x.retransmissionTimer with
  | none => x
  | some index => x.setTimer index isRunning

def newTimer (timer : RetransmissionTimer) : MessageExchange :=
  { x with retransmissionTimer := some x.timers.length, timers := x.timers ++ [timer] }

def currentTimer : Option RetransmissionTimer :=
  x.retransmissionTimer.bind (fun index => x.timers[index]?)

end Timers

section Acknowledge

def setPromise (key : Option Nat) (f : AckPromise → AckPromise) :
    MessageExchange :=
  match key with
  | none => x
  | some key => { x with tasks := x.tasks.map (Task.setPromise key f) }

/-- `#sentMessageAckSuccess` is called; a promise resolves once. -/
def ackSuccess (response : Option Message) : MessageExchange :=
  x.setPromise x.sentMessageAckSuccess
    (fun promise => { promise with resolved := promise.resolved.orElse (fun _ => some response) })

/-- `#sentMessageAckFailure` is called, which aborts the call. -/
def ackFailure : MessageExchange :=
  x.setPromise x.sentMessageAckFailure (fun promise => { promise with aborted := true })

end Acknowledge

section Close

/-- The private `#close`. -/
def closeNow (cause : Bool) : MessageExchange :=
  let x := { x with closeCause := x.closeCause || cause }
  let x := (x.setRetransmissionTimer false).ackSuccess none
  { x with
    receivedMessageAckTimer := false
    closeTimer := x.closeTimer.map (fun timer => { timer with isRunning := false })
    closed := true }

/-- The last part of `close`: nothing waits for an acknowledgement, or a timer does. -/
def closeWhenAcked (cause : Bool) : MessageExchange :=
  if cause || x.sentMessageToAck.isNone then x.closeNow cause
  else { x with closeTimer := some ⟨cause, true⟩ }

end Close

section Send

/-- A `#send` returns, or throws what its caller catches. -/
def returnTo (caller : Caller) : MessageExchange :=
  match caller with
  | .send | .other => x
  | .received message =>
    { x with
      receivedMessageToAck := some message
      receivedMessageAckTimer := true
      messagesQueue := x.messagesQueue ++ [message] }
  | .close cause => x.closeWhenAcked cause
  | .destroy => x.closeNow false

def throwTo (caller : Caller) : MessageExchange :=
  match caller with
  | .send | .other | .received _ => x
  | .close _ | .destroy => x.returnTo caller

/-- Whether the message also acknowledges the one received last. -/
def acksReceived (standaloneAckMessageId : Option Nat) : Bool :=
  standaloneAckMessageId.isNone && x.usesMrp && x.receivedMessageToAck.isSome

def sendingOf (messageType : Nat) (standaloneAckMessageId : Option Nat)
    (caller : Caller) : Sending :=
  let isStandaloneAck := standaloneAckMessageId.isSome
  let isStatusReport := messageType = SecureMessageType.statusReport
  { messageType
    isStandaloneAck
    requiresAck := !x.sendOptions.suppressAck && x.usesMrp && !isStandaloneAck
    protocolId :=
      if isStandaloneAck || isStatusReport then secureChannelProtocolId else x.protocolId
    ackedMessageId :=
      if x.acksReceived standaloneAckMessageId then x.receivedMessageToAck.map Message.messageId
      else standaloneAckMessageId
    expectAckOnly := x.sendOptions.expectAckOnly
    disableMrpLogic := x.sendOptions.disableMrpLogic
    expectedProcessingTime :=
      x.sendOptions.expectedProcessingTime.getD Mrp.defaultExpectedProcessingTime
    limit := x.sendOptions.limit
    caller }

variable (clock : Clock)

/-- The exchange when the message is to be made. -/
def prepareSend (standaloneAckMessageId : Option Nat) :
    MessageExchange :=
  let acksReceived := x.acksReceived standaloneAckMessageId
  { x.notifyActivity clock.now with
    used := true
    receivedMessageAckTimer := if acksReceived then false else x.receivedMessageAckTimer
    receivedMessageToAck := if acksReceived then none else x.receivedMessageToAck }

/-- The private `#send`, up to the message counter. -/
def startSend (messageType : Nat)
    (standaloneAckMessageId : Option Nat) (caller : Caller) : MessageExchange :=
  if standaloneAckMessageId.isSome && !x.usesMrp then x.throwTo caller
  else if standaloneAckMessageId.isSome && messageType ≠ SecureMessageType.standaloneAck then
    x.throwTo caller
  else if x.sentMessageToAck.isSome && standaloneAckMessageId.isNone then x.throwTo caller
  else
    let sending := x.sendingOf messageType standaloneAckMessageId caller
    { x.prepareSend clock standaloneAckMessageId with tasks := x.tasks ++ [.counter sending] }

variable (sending : Sending)

def messageOf (messageId : Nat) : Message where
  key := x.nextKey
  messageId
  exchangeId := x.exchangeId
  protocolId := sending.protocolId
  messageType := sending.messageType
  isInitiatorMessage := x.isInitiator
  requiresAck := sending.requiresAck
  ackedMessageId := sending.ackedMessageId

def transmit (messageId : Nat) :
    MessageExchange :=
  let message := x.messageOf sending messageId
  if sending.isReliable then
    let x := x.newTimer ⟨message, some sending.expectedProcessingTime, clock.backOff, false⟩
    { x with
      nextKey := x.nextKey + 1
      sentMessageToAck := some message
      sentMessageAckSuccess := some message.key
      sentMessageAckFailure := some message.key
      log := x.log ++ [.initial message.key sending.limit]
      tasks := x.tasks ++ [.channelSend sending message (some {})] }
  else
    { x with
      nextKey := x.nextKey + 1
      log := x.log ++ [.unreliable message.key]
      tasks := x.tasks ++ [.channelSend sending message none] }

def transmitted (message : Message)
    (ackPromise : Option AckPromise) : MessageExchange :=
  let x := { x with
    lastTransmissionAt := if sending.isStandaloneAck then x.lastTransmissionAt else some clock.now }
  match ackPromise with
  | none => x.returnTo sending.caller
  | some promise =>
    let x := { x with retransmissionCounter := 0 }.setRetransmissionTimer true
    { x with tasks := x.tasks ++ [.waitForAck sending message promise] }

def send (messageType : Nat)
    (options : ExchangeSendOptions) : MessageExchange :=
  if x.closeCause then x
  else { x with sendOptions := options, retransmissionCounter := 0 }.startSend clock messageType
    none .send

def sendStandaloneAckForMessage (message : Message)
    (caller : Caller) : MessageExchange :=
  if !message.requiresAck || !x.usesMrp then x.returnTo caller
  else x.startSend clock SecureMessageType.standaloneAck (some message.messageId) caller

end Send

section Retransmit

/-- Whether the message, as an object, waits for its acknowledgement. -/
def isPending (message : Message) : Bool :=
  x.sentMessageToAck.any (·.key = message.key)

def giveUp : MessageExchange :=
  let x :=
    if x.sentMessageAckFailure.isSome then
      let x := { x with receivedMessageToAck := none }.ackFailure
      { x with sentMessageAckFailure := none, sentMessageAckSuccess := none }
    else x
  if x.closeTimer.isSome then x.closeNow false else x

variable (clock : Clock)

/-- Transmits the pending message again, and whether a transmission was started. -/
def retransmitMessage (message : Message)
    (expectedProcessingTime : Option Nat) : MessageExchange × Bool :=
  if !x.isPending message then (x, false)
  else
    let counter := x.retransmissionCounter + 1
    if x.considerClosed || x.sendOptions.limit ≤ counter then
      let interval := (x.currentTimer.map RetransmissionTimer.interval).getD 0
      if expectedProcessingTime.getD 0 ≠ 0 && !x.considerClosed &&
          interval < clock.maximumPeerResponseTime then
        -- the counter is taken back: the message is not resubmitted again
        (x.newTimer ⟨message, none, clock.maximumPeerResponseTime - interval, true⟩, false)
      else ({ x with retransmissionCounter := counter }.giveUp, false)
    else
      let x := { x with
        retransmissionCounter := counter
        lastTransmissionAt := some clock.now
        log := x.log ++ [LogEntry.retransmission message.key]
        tasks := x.tasks ++ [Task.retransmission message clock.backOff expectedProcessingTime] }
      (x.notifyActivity clock.now, true)

def initializeResubmission (message : Message) (backOff : Nat)
    (expectedProcessingTime : Option Nat) : MessageExchange :=
  if !x.isPending message then x
  else x.newTimer ⟨message, expectedProcessingTime, backOff, true⟩

/-- Whether a duplicate may bring the next retransmission forward. -/
def kicks (pending : Message)
    (timer : RetransmissionTimer) (duplicate : Message) : Bool :=
  let cadence := x.parameters.activeInterval + x.parameters.sendAdditionalDelay
  let isElapsed := x.lastTransmissionAt.all (fun at_ => cadence ≤ clock.now - at_)
  -- with no transmission yet the time elapsed is infinite, and none remains
  let isWorthIt := x.lastTransmissionAt.any (fun at_ =>
    x.parameters.activeThreshold < timer.interval - (clock.now - at_))
  timer.isRunning && some duplicate.messageId = pending.ackedMessageId &&
    x.retransmissionCounter + 1 < x.sendOptions.limit && isElapsed && isWorthIt

def kickRetransmissionForLiveness (duplicate : Message) :
    MessageExchange × Bool :=
  if x.protocolId ≠ bdxProtocolId || x.considerClosed then (x, false)
  else
    match x.sentMessageToAck, x.currentTimer with
    | some pending, some timer =>
      if x.kicks clock pending timer duplicate then
        (x.setRetransmissionTimer false).retransmitMessage clock pending
          (some (x.sendOptions.expectedProcessingTime.getD Mrp.defaultExpectedProcessingTime))
      else (x, false)
    | _, _ => (x, false)

end Retransmit

section Receive

/-- The acknowledgement of the pending message has arrived. -/
def acknowledge (pending : Message) (response : Message) :
    MessageExchange :=
  let x := (x.setRetransmissionTimer false).ackSuccess (some response)
  { x with
    retransmissionCounter := 0
    sentMessageAckSuccess := none
    sentMessageAckFailure := none
    sentMessageToAck := none
    log := x.log ++ [.acked pending.key] }

variable (clock : Clock) (message : Message)

/-- The end of `onMessageReceived`: a message is to be acknowledged and is put in the queue. -/
def enqueue : MessageExchange :=
  if message.isStandaloneAck then x
  else if message.requiresAck then
    match x.receivedMessageToAck with
    | some earlier =>
      { x with receivedMessageAckTimer := false }.sendStandaloneAckForMessage clock earlier
        (.received message)
    | none => x.returnTo (.received message)
  else { x with messagesQueue := x.messagesQueue ++ [message] }

/-- The part of `onMessageReceived` for a message that was not received before. -/
def receiveNew : MessageExchange :=
  match x.sentMessageToAck with
  | none => x.enqueue clock message
  | some pending =>
    if some message.messageId = pending.ackedMessageId then
      { x with lastTransmissionAt := some clock.now, log := x.log ++ [.resent pending.key] }
    else
      match message.ackedMessageId with
      | none => x
      | some ackedMessageId =>
        if ackedMessageId ≠ pending.messageId then
          if message.isStandaloneAck then x.enqueue clock message else x
        else
          let x := x.acknowledge pending message
          if message.isStandaloneAck && x.closeTimer.isSome then x.closeNow false
          else x.enqueue clock message

def onMessageReceived (duplicate : Bool) : MessageExchange :=
  let message := { message with requiresAck := message.requiresAck && x.usesMrp }
  if message.protocolId ≠ x.protocolId && !message.isStandaloneAck && !message.isStatusReport then x
  else
    let x := x.notifyActivity clock.now
    if duplicate then
      if message.requiresAck then
        match x.kickRetransmissionForLiveness clock message with
        | (x, true) => x
        | (x, false) => x.sendStandaloneAckForMessage clock message .other
      else x
    else x.receiveNew clock message

end Receive

section Steps

def close (cause : Bool) : MessageExchange :=
  if x.isDestroyed then x
  else
    match x.closeTimer with
    | some timer =>
      if cause then { x with closeTimer := some { timer with isRunning := false } }.closeNow cause
      else x
    | none =>
      if !x.used then x.closeNow cause
      else if !x.closed then { x with closing := true, tasks := x.tasks ++ [.closing cause] }
      else x

variable (clock : Clock)

/-- `close` when the observers of `closing` are done. -/
def continueClose (cause : Bool) : MessageExchange :=
  if x.closed then x
  else
    match x.receivedMessageToAck with
    | some message =>
      { x with receivedMessageAckTimer := false, receivedMessageToAck := none
        }.sendStandaloneAckForMessage clock message (.close cause)
    | none => x.closeWhenAcked cause

def destroy : MessageExchange :=
  if x.isDestroyed then x
  else
    let x := { x with isDestroyed := true }
    match x.closeTimer, x.receivedMessageToAck with
    | none, some message =>
      { x with receivedMessageAckTimer := false, receivedMessageToAck := none
        }.sendStandaloneAckForMessage clock message .destroy
    | _, _ => x.closeNow false

/-- How a promise settles. -/
inductive Outcome
  | done (value : Nat)
  | failed
  /-- It rejects with a `SessionClosedError`. -/
  | sessionClosed
  /-- The call is aborted by its signal. -/
  | aborted
  deriving DecidableEq

/-- The rest of `#send` when the acknowledgement has arrived or the call is aborted; the promise
alone does not settle before. -/
def resumeAck (sending : Sending) (promise : AckPromise)
    (outcome : Outcome) : Option MessageExchange :=
  if promise.aborted || outcome = .aborted then
    some ((x.setRetransmissionTimer false).throwTo sending.caller)
  else if promise.resolved.isSome then
    some ({ x with sentMessageAckSuccess := none, sentMessageAckFailure := none }.returnTo
      sending.caller)
  else none

/-- A call goes on after the promise it waits for has settled. -/
def resume (task : Task) (outcome : Outcome) :
    Option MessageExchange :=
  match task, outcome with
  | .counter sending, .done messageId => some (x.transmit clock sending messageId)
  | .counter sending, _ => some (x.throwTo sending.caller)
  | .channelSend sending message promise, .done _ =>
    some (x.transmitted clock sending message promise)
  | .channelSend sending _ _, _ => some (x.throwTo sending.caller)
  | .waitForAck sending _ promise, outcome => x.resumeAck sending promise outcome
  | .retransmission .., .sessionClosed => some (x.closeNow false)
  | .retransmission message backOff expectedProcessingTime, _ =>
    some (x.initializeResubmission message backOff expectedProcessingTime)
  | .closing cause, _ => some (x.continueClose clock cause)

/-- What can happen to an exchange. -/
inductive Event
  | send (messageType : Nat) (options : ExchangeSendOptions)
  | receive (message : Message) (duplicate : Bool)
  | sendStandaloneAck (message : Message)
  | retransmissionTimeout (index : Nat)
  | receivedMessageAckTimeout
  | closeTimeout
  | close (cause : Bool)
  | destroy
  | settle (index : Nat) (outcome : Outcome)

/-- One event; a timer fires only while it runs, and then runs no more. -/
def step : Event → Option MessageExchange
  | .send messageType options => some (x.send clock messageType options)
  | .receive message duplicate => some (x.onMessageReceived clock message duplicate)
  | .sendStandaloneAck message => some (x.sendStandaloneAckForMessage clock message .other)
  | .retransmissionTimeout index =>
    match x.timers[index]? with
    | some timer =>
      if timer.isRunning then
        some ((x.setTimer index false).retransmitMessage clock timer.message
          timer.expectedProcessingTime).1
      else none
    | none => none
  | .receivedMessageAckTimeout =>
    if x.receivedMessageAckTimer then
      let y := { x with receivedMessageAckTimer := false }
      match x.receivedMessageToAck with
      | some message =>
        some ({ y with receivedMessageToAck := none }.sendStandaloneAckForMessage clock message
          .other)
      | none => some y
    else none
  | .closeTimeout =>
    match x.closeTimer with
    | some ⟨cause, true⟩ =>
      some ({ x with closeTimer := some ⟨cause, false⟩ }.closeNow cause)
    | _ => none
  | .close cause => some (x.close cause)
  | .destroy => some (x.destroy clock)
  | .settle index outcome =>
    (x.tasks[index]?).bind (fun task =>
      { x with tasks := x.tasks.eraseIdx index }.resume clock task outcome)

end Steps

end MessageExchange

end MatterJs.Exchange
