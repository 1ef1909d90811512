import MatterJs.Btp.Codec

/-!
# The BTP session handler

The fields of a session handler with the calls that wait for a callback. Each function
runs a method up to its next `await`: what is left of the call is a task, which is
resumed when the callback it waits for has settled.
-/
namespace MatterJs.Btp

open BtpCodec

namespace MatterBle

def minimumAttMtu : Nat := 20
def maximumBtpMtu : Nat := 244
def btpMaximumWindowSize : Nat := 255
def btpWindowNoAckSendThreshold : Int := 1
def btpImmediateAckWindowThreshold : Int := 2
def btpSupportedVersions : List Nat := [4]

end MatterBle

inductive Role
  | central
  | peripheral
  deriving DecidableEq

/-- A queued message, read up to an offset. -/
structure MessageReader where
  data : List UInt8
  offset : Nat := 0

def MessageReader.remainingBytesCount (m : MessageReader) : Nat := m.data.length - m.offset

/-- The call that waits for a send: that of `handleIncomingBleData` for the queue, that of
`handleIncomingBleData` for an immediate acknowledgement, or one that ends with it. -/
inductive Caller
  | incomingQueue
  | incomingAck
  | other

/-- Where a call waits. -/
inductive Task
  /-- `handleIncomingBleData` for `handleMatterMessagePayload`. -/
  | handlePayload
  /-- `processSendQueue` for `writeBleCallback`. -/
  | writeFragment (caller : Caller) (isEndingSegment : Bool) (previousAcked : Int)
  /-- `sendStandaloneAck` for `writeBleCallback`. -/
  | writeAck (caller : Caller) (previousAcked : Int)
  /-- `handleIncomingBleData` for `processSendQueue`, which has returned. -/
  | sendQueueDone

structure BtpSessionHandler where
  role : Role
  fragmentSize : Nat
  clientWindowSize : Nat
  currentIncomingSegmentedMsgLength : Option Nat := none
  currentIncomingSegmentedPayload : Option (List UInt8) := none
  prevIncomingSequenceNumber : Int := 255
  prevIncomingAckNumber : Int := -1
  ackReceiveTimer : Bool := false
  sequenceNumber : Int := 0
  prevAckedSequenceNumber : Int := -1
  queuedOutgoingMatterMessages : List MessageReader := []
  sendInProgress : Bool := false
  sendAckTimer : Bool := false
  isActive : Bool := true
  idleTimeout : Bool := false
  /-- The calls that wait. -/
  tasks : List Task := []
  /-- The arguments of `writeBleCallback` that the link has not delivered yet. -/
  written : List (List UInt8) := []
  /-- The arguments of `handleMatterMessagePayload`. -/
  handed : List (List UInt8) := []
  /-- The errors for which `handleIncomingBleData` closed the session. -/
  failures : List BtpError := []

namespace BtpSessionHandler

variable (h : BtpSessionHandler)

def create (role : Role) (fragmentSize clientWindowSize : Nat) : BtpSessionHandler :=
  match role with
  | .peripheral => { role, fragmentSize, clientWindowSize, prevAckedSequenceNumber := 255 }
  | .central =>
    { role, fragmentSize, clientWindowSize
      sendAckTimer := true
      prevIncomingSequenceNumber := 0
      sequenceNumber := -1 }

variable (maxDataSize : Option Nat)

/-- The segment size a peripheral chooses. -/
def chooseAttMtu (handshakeMtu : Nat) : Nat :=
  match maxDataSize with
  | none => MatterBle.minimumAttMtu
  | some maxDataSize =>
    if MatterBle.minimumAttMtu < maxDataSize then
      if handshakeMtu ≤ MatterBle.minimumAttMtu then min maxDataSize MatterBle.maximumBtpMtu
      else min (min handshakeMtu maxDataSize) MatterBle.maximumBtpMtu
    else MatterBle.minimumAttMtu

/-- The session a peripheral makes of a request, with the response it has written. -/
def createFromHandshakeRequest (handshakeRequestPayload : List UInt8) :
    Except BtpError (BtpSessionHandler × List UInt8) := do
  let request ← decodeBtpHandshakeRequest handshakeRequestPayload
  match MatterBle.btpSupportedVersions.find? (fun version => request.versions.contains version) with
  | none =>
    let versions := request.versions
    .error (.btpProtocol s!"No supported BTP version found in {versions}")
  | some version =>
    let attMtu := chooseAttMtu maxDataSize request.attMtu
    let windowSize := min MatterBle.btpMaximumWindowSize request.clientWindowSize
    -- the timer starts when the response is written
    return ({ create .peripheral attMtu windowSize with ackReceiveTimer := true },
      encodeBtpHandshakeResponse ⟨version, attMtu, windowSize⟩)

def createAsCentral (handshakeResponsePayload : List UInt8) :
    Except BtpError BtpSessionHandler := do
  let response ← decodeBtpHandshakeResponsePayload handshakeResponsePayload
  if response.version ≠ 4 then
    let version := response.version
    .error (.btpProtocol s!"Unsupported BTP version {version}")
  else
    return create .central (min response.attMtu MatterBle.maximumBtpMtu) response.windowSize

section Window

/-- Wrap-safe forward distance between two sequence numbers. -/
def modularDistance (source target : Int) : Int :=
  ((target - source).tmod 256 + 256).tmod 256

def outstanding : Int :=
  modularDistance h.prevIncomingAckNumber h.sequenceNumber

def remoteWindowFreeSlots : Int := h.clientWindowSize - h.outstanding

def localWindowFreeSlots : Int :=
  h.clientWindowSize - modularDistance h.prevAckedSequenceNumber h.prevIncomingSequenceNumber

def canSend (carriesAck : Bool) : Bool :=
  if h.remoteWindowFreeSlots ≤ 0 then false
  else if h.remoteWindowFreeSlots ≤ MatterBle.btpWindowNoAckSendThreshold && !carriesAck then false
  else true

def nextSequenceNumber : Int :=
  if h.sequenceNumber + 1 > 255 then 0 else h.sequenceNumber + 1

def getNextSequenceNumber : BtpSessionHandler :=
  { h with sequenceNumber := h.nextSequenceNumber }

end Window

def close : BtpSessionHandler :=
  { h with
    sendAckTimer := false, ackReceiveTimer := false, idleTimeout := false, isActive := false }

/-- The `catch` of `handleIncomingBleData`. -/
def failIncoming (error : BtpError) : BtpSessionHandler :=
  { h.close with failures := h.failures ++ [error] }

section Send

variable (caller : Caller)

def returnTo : BtpSessionHandler :=
  match caller with
  | .incomingQueue => { h with tasks := h.tasks ++ [.sendQueueDone] }
  | .incomingAck | .other => h

def throwTo (error : BtpError) : BtpSessionHandler :=
  match caller with
  | .incomingQueue | .incomingAck => h.failIncoming error
  | .other => h

def setSendInProgress (sendInProgress : Bool) : BtpSessionHandler :=
  { h with sendInProgress }

/-- A packet is handed to `writeBleCallback`, with the acknowledgement in it committed. -/
def write (ackNumber : Option Int) (bytes : List UInt8) (task : Task) :
    BtpSessionHandler :=
  { h with
    prevAckedSequenceNumber := ackNumber.getD h.prevAckedSequenceNumber
    written := h.written ++ [bytes]
    tasks := h.tasks ++ [task] }

def ackPacket (ackNumber sequenceNumber : Int) : BtpPacket where
  header := ⟨false, false, true, false, false, false⟩
  payload := ⟨some ackNumber, sequenceNumber, none, []⟩

/-- Send a stand-alone acknowledgement packet if one is pending. -/
def sendStandaloneAck : BtpSessionHandler :=
  if h.sendInProgress then h.returnTo caller
  else if h.prevIncomingSequenceNumber = h.prevAckedSequenceNumber then h.returnTo caller
  else if !h.canSend true then h.returnTo caller
  else
    let ackNumber := h.prevIncomingSequenceNumber
    match encodeBtpPacket (ackPacket ackNumber h.nextSequenceNumber) with
    | .error error => h.getNextSequenceNumber.throwTo caller error
    | .ok bytes =>
      (h.getNextSequenceNumber.setSendInProgress true).write (some ackNumber) bytes
        (.writeAck caller h.prevAckedSequenceNumber)

def hasAckNumber : Bool :=
  h.prevIncomingSequenceNumber ≠ h.prevAckedSequenceNumber

/-- The acknowledgement a fragment carries. -/
def ackNumberToSend : Option Int :=
  if h.hasAckNumber then some h.prevIncomingSequenceNumber else none

variable (message : MessageReader)

/-- The bytes of a message that fit in a fragment, below zero if not even the header fits. -/
def capacity : Int :=
  let isBeginningSegment := message.remainingBytesCount = message.data.length
  h.fragmentSize - (2 + (if isBeginningSegment then 2 else 0) + (if h.hasAckNumber then 1 else 0))

/-- The number of bytes the next fragment reads. -/
def fragmentLength : Int :=
  min (h.capacity message) message.remainingBytesCount

/-- The next fragment of a message. -/
def fragmentPacket : BtpPacket :=
  let remaining := message.remainingBytesCount
  let isBeginningSegment : Bool := remaining = message.data.length
  { header := {
      hasAckNumber := h.hasAckNumber
      isEndingSegment := (remaining : Int) ≤ h.capacity message
      isContinuingSegment := !isBeginningSegment
      isBeginningSegment }
    payload := {
      ackNumber := h.ackNumberToSend
      sequenceNumber := h.nextSequenceNumber
      messageLength := if isBeginningSegment then some remaining else none
      segmentPayload := (message.data.drop message.offset).take
        (h.fragmentLength message).toNat } }

/-- A fragment that acknowledges makes the timer needless. -/
def stopSendAckTimer : BtpSessionHandler :=
  { h with sendAckTimer := if h.hasAckNumber then false else h.sendAckTimer }

/-- The session when the bytes of a fragment are read and its number is taken. -/
def readFragment (messages : List MessageReader) : BtpSessionHandler :=
  { h.stopSendAckTimer.getNextSequenceNumber with
    queuedOutgoingMatterMessages :=
      { message with offset := message.offset + (h.fragmentLength message).toNat } :: messages }

/-- The loop of `processSendQueue`, up to the next write or its end. An error in it leaves the
lock taken. -/
def sendLoop (caller : Caller) : BtpSessionHandler :=
  match h.queuedOutgoingMatterMessages with
  | [] => (h.setSendInProgress false).sendStandaloneAck caller
  | message :: messages =>
    if !h.canSend h.hasAckNumber then (h.setSendInProgress false).sendStandaloneAck caller
    else
      let length := h.fragmentLength message
      if length < 0 then
        h.stopSendAckTimer.throwTo caller
          (.dataRead s!"Read size {length} must be zero or more whole bytes")
      else
        match encodeBtpPacket (h.fragmentPacket message) with
        | .error error => (h.readFragment message messages).throwTo caller error
        | .ok bytes => (h.readFragment message messages).write h.ackNumberToSend bytes
            (.writeFragment caller (h.fragmentPacket message).header.isEndingSegment
              h.prevAckedSequenceNumber)

def processSendQueue (caller : Caller) : BtpSessionHandler :=
  if h.sendInProgress then h.returnTo caller
  else if h.queuedOutgoingMatterMessages.isEmpty then h.returnTo caller
  else (h.setSendInProgress true).sendLoop caller

def sendImmediateAckIfWindowLow : BtpSessionHandler :=
  if !h.queuedOutgoingMatterMessages.isEmpty || h.sendInProgress then h
  else if h.localWindowFreeSlots > MatterBle.btpImmediateAckWindowThreshold then h
  else h.sendStandaloneAck .incomingAck

/-- The method throws a `BtpFlowError` if the session is closed or the message empty. -/
def sendMatterMessage (data : List UInt8) : BtpSessionHandler :=
  if !h.isActive then h
  else if data.isEmpty then h
  else { h with queuedOutgoingMatterMessages :=
    h.queuedOutgoingMatterMessages ++ [MessageReader.mk data 0] }.processSendQueue .other

end Send

section Receive

/-- The checks that leave the session as it is. -/
def checkPacket (data : List UInt8) : Except BtpError BtpPacket :=
  if h.fragmentSize + 3 < data.length then
    let byteLength := data.length
    let fragmentSize := h.fragmentSize
    .error (.btpProtocol
      s!"Received data {byteLength} bytes exceeds fragment size of {fragmentSize} bytes")
  else do
    let packet ← decodeBtpPacket data
    if packet.header.isHandshakeRequest || packet.header.hasManagementOpcode then
      .error (.btpProtocol
        "BTP packet must not be a handshake request or have a management opcode.")
    else if packet.payload.segmentPayload.isEmpty && !packet.header.hasAckNumber then
      .error (.btpProtocol "BTP packet must have a segment payload or an ack number.")
    else if packet.payload.sequenceNumber ≠ (h.prevIncomingSequenceNumber + 1).tmod 256 then
      .error (.btpProtocol "Expected and actual BTP packets sequence number does not match")
    else return packet

variable (packet : BtpPacket)

def receiveSequence : BtpSessionHandler :=
  { h with
    prevIncomingSequenceNumber := packet.payload.sequenceNumber
    sendAckTimer := true }

/-- A valid ack is not behind the last packet that was sent. -/
def receiveAck : Except BtpError BtpSessionHandler :=
  match packet.header.hasAckNumber, packet.payload.ackNumber with
  | true, some ackNumber =>
    if modularDistance h.prevIncomingAckNumber ackNumber > h.outstanding then
      let sequenceNumber := h.sequenceNumber
      let prevIncomingAckNumber := h.prevIncomingAckNumber
      .error (.btpProtocol (s!"Invalid Ack Number, Ack Number: {ackNumber}, " ++
        s!"Sequence Number: {sequenceNumber}, Previous AckNumber: {prevIncomingAckNumber}"))
    else
      .ok { h with
        prevIncomingAckNumber := ackNumber
        ackReceiveTimer := ackNumber ≠ h.sequenceNumber }
  | _, _ => .ok h

/-- Set or add the payload to the current incoming segmented payload. -/
def storeSegment :
    Except BtpError BtpSessionHandler :=
  let segment := packet.payload.segmentPayload
  if packet.header.isBeginningSegment then
    if h.currentIncomingSegmentedPayload.isSome then
      .error (.btpProtocol ("BTP message flow error! New beginning packet was received without " ++
        "previous message being completed."))
    else
      .ok { h with
        currentIncomingSegmentedMsgLength := packet.payload.messageLength
        currentIncomingSegmentedPayload := some segment }
  else if packet.header.isContinuingSegment || packet.header.isEndingSegment then
    match h.currentIncomingSegmentedPayload with
    | none => .error (.btpProtocol
        "BTP Continuing or ending packet received without beginning packet.")
    | some payload =>
      if segment.isEmpty then
        .error (.btpProtocol "BTP Continuing or ending packet received without payload.")
      else if h.currentIncomingSegmentedMsgLength.any
          (fun msgLength => msgLength < payload.length + segment.length) then
        let reassembledLength := payload.length + segment.length
        let msgLength := h.currentIncomingSegmentedMsgLength.getD 0
        .error (.btpProtocol (s!"BTP reassembled length {reassembledLength} exceeds declared " ++
          s!"message length {msgLength}"))
      else .ok { h with currentIncomingSegmentedPayload := some (payload ++ segment) }
  else .ok h

/-- The message an ending segment completes. -/
def completeMessage :
    Except BtpError (BtpSessionHandler × Option (List UInt8)) :=
  if packet.header.isEndingSegment then
    match h.currentIncomingSegmentedMsgLength, h.currentIncomingSegmentedPayload with
    | some msgLength, some payload =>
      if payload.length ≠ msgLength then
        let byteLength := payload.length
        .error (.btpProtocol (s!"BTP packet payload length does not match message length: " ++
          s!"{byteLength} !== {msgLength}"))
      else
        .ok ({ h with
          currentIncomingSegmentedMsgLength := none
          currentIncomingSegmentedPayload := none }, some payload)
    | _, _ => .error (.btpProtocol "BTP beginning packet missing but ending packet received.")
  else .ok (h, none)

/-- The part of `handleIncomingBleData` before its first `await`: the message that is complete,
or the error that is caught. What was changed before the error stays. -/
def receive (data : List UInt8) :
    BtpSessionHandler × Except BtpError (Option (List UInt8)) :=
  match h.checkPacket data with
  | .error error => (h, .error error)
  | .ok packet =>
    let h := h.receiveSequence packet
    match h.receiveAck packet with
    | .error error => (h, .error error)
    | .ok h =>
      match h.storeSegment packet with
      | .error error => (h, .error error)
      | .ok h =>
        match h.completeMessage packet with
        | .error error => (h, .error error)
        | .ok (h, message) => (h, .ok message)

def handleIncomingBleData (data : List UInt8) : BtpSessionHandler :=
  if !h.isActive then h
  else
    match h.receive data with
    | (h, .error error) => h.failIncoming error
    | (h, .ok (some payload)) =>
      { h with handed := h.handed ++ [payload], tasks := h.tasks ++ [.handlePayload] }
    | (h, .ok none) => h.processSendQueue .incomingQueue

end Receive

section Steps

/-- How a callback settles. -/
inductive Outcome
  | done
  /-- It rejects with a `BleDisconnectedError`. -/
  | disconnected
  | failed
  deriving DecidableEq

/-- A call goes on after the callback it waits for has settled. -/
def resume (task : Task) (outcome : Outcome) : BtpSessionHandler :=
  match task, outcome with
  | .handlePayload, .done => h.processSendQueue .incomingQueue
  | .handlePayload, _ => h.failIncoming .callback
  | .sendQueueDone, _ => h.sendImmediateAckIfWindowLow
  | .writeFragment caller isEndingSegment _, .done =>
    { h with
      ackReceiveTimer := true
      idleTimeout := h.idleTimeout || h.role == Role.central
      queuedOutgoingMatterMessages :=
        if isEndingSegment then h.queuedOutgoingMatterMessages.tail
        else h.queuedOutgoingMatterMessages }.sendLoop caller
  | .writeFragment caller _ previousAcked, outcome =>
    let h := { h with
      prevAckedSequenceNumber := previousAcked
      queuedOutgoingMatterMessages := []
      sendInProgress := false }
    if outcome = .disconnected then h.returnTo caller else h.throwTo caller .callback
  | .writeAck caller _, .done =>
    { h with
      sendAckTimer := false
      ackReceiveTimer := true
      sendInProgress := false }.processSendQueue caller
  | .writeAck caller previousAcked, outcome =>
    let h := { h with prevAckedSequenceNumber := previousAcked, sendInProgress := false }
    if outcome = .disconnected then h.returnTo caller else h.throwTo caller .callback

/-- What can happen to a session. -/
inductive Event
  | send (data : List UInt8)
  | incoming (data : List UInt8)
  | settle (index : Nat) (outcome : Outcome)
  | sendAckTimeout
  | ackTimeout
  | idleTimeout
  | close

/-- One event; a timer fires only while it runs. -/
def step : Event → Option BtpSessionHandler
  | .send data => some (h.sendMatterMessage data)
  | .incoming data => some (h.handleIncomingBleData data)
  | .settle index outcome =>
    (h.tasks[index]?).map (fun task =>
      { h with tasks := h.tasks.eraseIdx index }.resume task outcome)
  | .sendAckTimeout =>
    if h.sendAckTimer then
      let h := { h with sendAckTimer := false }
      some (if h.isActive then h.sendStandaloneAck .other else h)
    else none
  | .ackTimeout =>
    if h.ackReceiveTimer then
      let h := { h with ackReceiveTimer := false }
      some (if h.prevIncomingAckNumber ≠ h.sequenceNumber then h.close else h)
    else none
  | .idleTimeout => if h.idleTimeout then some { h with idleTimeout := false }.close else none
  | .close => some h.close

end Steps

end BtpSessionHandler

end MatterJs.Btp
