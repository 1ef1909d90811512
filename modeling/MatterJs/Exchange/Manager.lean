import MatterJs.Exchange.MessageExchange
import MatterJs.Foundation.InsertionMap
import MatterJs.Foundation.KeyIndex

/-!
# The exchange manager

The table of exchanges, keyed by the exchange id and the role only, and what the manager does
with an inbound packet and with an exchange that is initiated. Decoding a packet and the
verdict on its message counter are inputs.
-/
namespace MatterJs.Exchange

open InsertionMap

inductive SessionType
  | unicast
  | group

/-- An inbound packet with what it decodes to on its session and whether its message counter was
seen before. -/
structure Packet where
  sessionType : SessionType := .unicast
  sessionId : Nat
  sourceNodeId : Option Nat := none
  destNodeId : Option Nat := none
  hasPrivacyEnhancements : Bool := false
  /-- The object of the group session. -/
  groupSessionKey : Nat := 0
  /-- Nothing if decoding throws. -/
  message : Option Message
  isDuplicate : Bool := false

structure ProtocolHandler where
  id : Nat
  requiresSecureSession : Option Bool := none

/-- An exchange with the index under which it was added. -/
structure Entry where
  exchange : MessageExchange
  index : Nat

/-- What the manager calls on an exchange or a protocol handler. -/
inductive Call
  | onMessageReceived (exchange : Nat) (message : Message) (isDuplicate : Bool)
  | onNewExchange (exchange : Nat)
  | sendStandaloneAckForMessage (exchange : Nat) (message : Message)
  deriving DecidableEq

structure ExchangeManager where
  exchangeCounter : Nat
  exchanges : List (Nat × Nat) := []
  /-- All exchanges that were made; the table refers to them by their position. -/
  pool : List Entry := []
  protocols : List ProtocolHandler := []
  sessions : KeySet Session.id := .empty
  unsecuredSessions : List Session := []
  closingSessions : List Session := []
  nextSessionKey : Nat := 0
  isClosing : Bool := false
  calls : List Call := []

def maximumConcurrentOutgoingExchangesPerSession : Nat := 30

def unspecifiedNodeId : Nat := 0

def Session.initiatorNodeId : Session → Option Nat
  | .unsecured initiatorNodeId _ => some initiatorNodeId
  | .node .. | .group .. => none

namespace ExchangeManager

variable (m : ExchangeManager)

def incrementedCounter : Nat :=
  if m.exchangeCounter + 1 > 0xffff then 0 else m.exchangeCounter + 1

section Exchanges

/-- An exchange has changed; when it has closed, the table drops it if it still maps to it. -/
def setExchange (ref : Nat) (exchange : MessageExchange) :
    ExchangeManager :=
  match m.pool[ref]? with
  | none => m
  | some entry =>
    let hasClosed := !entry.exchange.closed && exchange.closed
    { m with
      pool := m.pool.set ref { entry with exchange }
      exchanges :=
        if hasClosed && get m.exchanges entry.index = some ref then
          delete m.exchanges entry.index
        else m.exchanges }

def modifyExchange (ref : Nat) (f : MessageExchange → MessageExchange) :
    ExchangeManager :=
  match m.pool[ref]? with
  | none => m
  | some entry => m.setExchange ref (f entry.exchange)

def call (c : Call) : ExchangeManager := { m with calls := m.calls ++ [c] }

/-- The exchange that was active the longest time ago; of two the older entry. -/
def leastRecentlyActive : List (Nat × MessageExchange) → Option Nat
  | [] => none
  | first :: rest => some (rest.foldl (fun least exchange =>
        if exchange.2.lastActive < least.2.lastActive then exchange else least) first).1

def cleanupSessionExchanges (sessionId : Nat) : ExchangeManager :=
  if sessionId = Session.unicastUnsecureSessionId then m
  else
    let sessionExchanges := (values m.exchanges).filterMap (fun ref =>
      (m.pool[ref]?).bind (fun entry =>
        if entry.exchange.session.id = sessionId && !entry.exchange.considerClosed then
          some (ref, entry.exchange)
        else none))
    if sessionExchanges.length ≤ maximumConcurrentOutgoingExchangesPerSession then m
    else
      match leastRecentlyActive sessionExchanges with
      | none => m
      | some ref => m.modifyExchange ref (fun exchange => exchange.close false)

def addExchange (index : Nat) (exchange : MessageExchange) :
    ExchangeManager :=
  { m with
    pool := m.pool ++ [Entry.mk exchange index]
    exchanges := set m.exchanges index m.pool.length
    }.cleanupSessionExchanges exchange.session.id

def initiateExchangeForSession (clock : Clock) (session : Session)
    (parameters : SessionParameters) (protocolId : Nat) : ExchangeManager :=
  let exchangeId := m.incrementedCounter
  let exchangeIndex := exchangeId ||| 0x10000
  { m with exchangeCounter := exchangeId }.addExchange exchangeIndex
    (.initiate session parameters exchangeId protocolId clock.now)

end Exchanges

section Receive

def getUnsecuredSession (nodeId : Nat) : Option Session :=
  m.unsecuredSessions.find? (·.initiatorNodeId = some nodeId)

def getSession (sessionId : Nat) : Option Session := m.sessions.index sessionId

variable (clock : Clock) (packet : Packet)

/-- The session of an unsecured packet, which is made for a request. -/
def unsecuredSessionFor :
    Option (ExchangeManager × Session) :=
  let initiatorNodeId := (packet.destNodeId <|> packet.sourceNodeId).getD unspecifiedNodeId
  match m.getUnsecuredSession initiatorNodeId with
  | some session => some (m, session)
  | none =>
    if packet.destNodeId.isSome then none
    else
      let session := .unsecured initiatorNodeId m.nextSessionKey
      some ({ m with
        nextSessionKey := m.nextSessionKey + 1
        unsecuredSessions := m.unsecuredSessions ++ [session] }, session)

/-- The session of a packet; nothing if the packet is dropped. -/
def sessionFor : Option (ExchangeManager × Session) :=
  match packet.sessionType with
  | .unicast =>
    if packet.hasPrivacyEnhancements then none
    else if packet.sessionId = Session.unicastUnsecureSessionId then
      if m.isClosing then none else m.unsecuredSessionFor packet
    else (m.getSession packet.sessionId).map (fun session => (m, session))
  | .group =>
    if m.isClosing then none
    else if packet.sourceNodeId.isNone then none
    else some (m, .group packet.sessionId packet.groupSessionKey)

/-- The session and the message of a packet. -/
def resolve :
    Option (ExchangeManager × Session × Message) := do
  let (m, session) ← m.sessionFor packet
  let message ← packet.message
  return (m, session, message)

def exchangeIndexFor (message : Message) : Nat :=
  if message.isInitiatorMessage then message.exchangeId else message.exchangeId ||| 0x10000

/-- The exchange in the table, if its session id and role fit. -/
def lookup (session : Session) (message : Message) : Option Nat :=
  (get m.exchanges (exchangeIndexFor message)).filter (fun ref =>
    (m.pool[ref]?).any (fun entry => entry.exchange.session.id = session.id &&
      entry.exchange.isInitiator ≠ message.isInitiatorMessage))

/-- A message for an exchange in the table. -/
def receiveFor (message : Message)
    (ref : Nat) : ExchangeManager :=
  match m.pool[ref]? with
  | none => m
  | some entry =>
    let exchange := entry.exchange
    if exchange.session.id ≠ packet.sessionId ||
        (exchange.considerClosed && !message.isStandaloneAck) then
      (m.call (.sendStandaloneAckForMessage ref message)).modifyExchange ref
        (fun exchange => exchange.sendStandaloneAckForMessage clock message .other)
    else
      (m.call (.onMessageReceived ref message packet.isDuplicate)).modifyExchange ref
        (fun exchange => exchange.onMessageReceived clock message packet.isDuplicate)

def handlerFor (session : Session) (message : Message) :
    Option ProtocolHandler :=
  (m.protocols.find? (·.id = message.protocolId)).filter (fun protocol =>
    protocol.requiresSecureSession.all (fun required => required = session.isSecure))

/-- A message that belongs to no exchange in the table. -/
def receiveUnmatched (packet : Packet)
    (parameters : SessionParameters) (session : Session) (message : Message) : ExchangeManager :=
  let exchange := MessageExchange.fromInitialMessage session parameters message clock.now
  let ref := m.pool.length
  if m.isClosing || session ∈ m.closingSessions then m
  else if (m.handlerFor session message).isSome && message.isInitiatorMessage &&
      !packet.isDuplicate then
    if message.isStandaloneAck && !message.requiresAck then m
    else
      let m := (m.addExchange (exchangeIndexFor message) exchange).call
        (.onMessageReceived ref message false)
      -- the handler is called when the message has been received
      (m.modifyExchange ref (fun exchange =>
        exchange.onMessageReceived clock message false)).call (.onNewExchange ref)
  else if message.requiresAck then
    let m := (m.addExchange (exchangeIndexFor message) exchange).call
      (.sendStandaloneAckForMessage ref message)
    m.modifyExchange ref (fun exchange =>
      exchange.sendStandaloneAckForMessage clock message .other)
  else m

/-- `#receiveMessage`, up to its first `await`. -/
def receiveMessage (parameters : SessionParameters) : ExchangeManager :=
  match m.resolve packet with
  | none => m
  | some (m, session, message) =>
    match m.lookup session message with
    | some ref => m.receiveFor clock packet message ref
    | none => m.receiveUnmatched clock packet parameters session message

end Receive

section Steps

/-- What can happen to the manager. The parameters are those of the session. -/
inductive Event
  | receive (packet : Packet) (parameters : SessionParameters)
  | initiate (session : Session) (parameters : SessionParameters) (protocolId : Nat)
  /-- Anything but a message happens to an exchange. -/
  | exchange (ref : Nat) (event : MessageExchange.Event)
  | addSession (session : Session)
  | deleteSession (session : Session)
  | sessionClosing (session : Session)
  | close

def stepExchange (clock : Clock) (ref : Nat) (event : MessageExchange.Event) :
    Option ExchangeManager :=
  match event with
  | .receive .. => none
  | event => do
    let entry ← m.pool[ref]?
    let exchange ← entry.exchange.step clock event
    return m.setExchange ref exchange

def step (clock : Clock) : Event → Option ExchangeManager
  | .receive packet parameters => some (m.receiveMessage clock packet parameters)
  | .initiate session parameters protocolId =>
    some (m.initiateExchangeForSession clock session parameters protocolId)
  | .exchange ref event => m.stepExchange clock ref event
  | .addSession session =>
    match session with
    | .unsecured .. => some { m with unsecuredSessions := m.unsecuredSessions ++ [session] }
    | .node .. | .group .. => some { m with sessions := m.sessions.add session }
  | .deleteSession session =>
    some { m with
      sessions := m.sessions.delete session
      unsecuredSessions := m.unsecuredSessions.erase session }
  | .sessionClosing session => some { m with closingSessions := session :: m.closingSessions }
  | .close => some { m with isClosing := true }

end Steps

end ExchangeManager

end MatterJs.Exchange
