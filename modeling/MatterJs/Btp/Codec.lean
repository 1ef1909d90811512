import MatterJs.Tlv.Data

/-!
# Packets of the Bluetooth transport protocol

The packets of a BTP session and of its handshake as bytes, and that a packet is read
as it was written.
-/
namespace MatterJs.Btp

open MatterJs.Tlv (DataReader DataWriter TlvError)

inductive BtpError
  | btpProtocol (message : String)
  | dataRead (message : String)
  /-- An error that is thrown by a callback. -/
  | callback
  deriving DecidableEq

/-- A read past the end of the data is no protocol error. -/
def liftRead {α : Type} : Except TlvError α → Except BtpError α
  | .ok a => .ok a
  | .error (.dataRead message) => .error (.dataRead message)
  | .error _ => .error .callback

structure BtpHeader where
  isHandshakeRequest : Bool := false
  hasManagementOpcode : Bool := false
  hasAckNumber : Bool
  isEndingSegment : Bool
  isContinuingSegment : Bool
  isBeginningSegment : Bool
  deriving DecidableEq

structure BtpPacketPayload where
  ackNumber : Option Int
  sequenceNumber : Int
  messageLength : Option Nat := none
  segmentPayload : List UInt8 := []
  deriving DecidableEq

structure BtpPacket where
  header : BtpHeader
  payload : BtpPacketPayload
  deriving DecidableEq

namespace BtpHeaderBits

def handshakeBit : Nat := 0b01000000
def managementMsg : Nat := 0b00100000
def ackMsg : Nat := 0b00001000
def endSegment : Nat := 0b00000100
def continuingSegment : Nat := 0b00000010
def beginSegment : Nat := 0b00000001

end BtpHeaderBits

namespace BtpCodec

open BtpHeaderBits

def headerOfBits (headerBits : Nat) : BtpHeader where
  isHandshakeRequest := headerBits &&& handshakeBit ≠ 0
  hasManagementOpcode := headerBits &&& managementMsg ≠ 0
  hasAckNumber := headerBits &&& ackMsg ≠ 0
  isEndingSegment := headerBits &&& endSegment ≠ 0
  isContinuingSegment := headerBits &&& continuingSegment ≠ 0
  isBeginningSegment := headerBits &&& beginSegment ≠ 0

variable (reader : DataReader)

def decodeBtpPacketHeader : Except BtpError (BtpHeader × DataReader) := do
  let (headerBits, reader) ← liftRead reader.readUInt8
  let header := headerOfBits headerBits
  if header.hasManagementOpcode then
    .error (.btpProtocol "Management Opcode for BTPHandshake Request is not expected")
  else return (header, reader)

/-- A number that is read only where the header says so. -/
def readIf (present : Bool) (read : DataReader → Except TlvError (Nat × DataReader))
    (reader : DataReader) : Except BtpError (Option Nat × DataReader) :=
  if present then do
    let (n, reader) ← liftRead (read reader)
    return (some n, reader)
  else return (none, reader)

def decodeBtpPacketPayload (header : BtpHeader) :
    Except BtpError BtpPacketPayload := do
  let (ackNumber, reader) ← readIf header.hasAckNumber DataReader.readUInt8 reader
  let (sequenceNumber, reader) ← liftRead reader.readUInt8
  let (messageLength, reader) ← readIf header.isBeginningSegment DataReader.readUInt16 reader
  return ⟨ackNumber.map Int.ofNat, sequenceNumber, messageLength, reader.remaining⟩

def decodeBtpPacket (data : List UInt8) : Except BtpError BtpPacket := do
  let (header, reader) ← decodeBtpPacketHeader (.of data)
  let payload ← decodeBtpPacketPayload reader header
  return ⟨header, payload⟩

variable (header : BtpHeader)
include header

/-- The segment and ack bits of a header. -/
def bitsOfHeader : Nat :=
  (if header.hasAckNumber then ackMsg else 0) |||
    (if header.isEndingSegment then endSegment else 0) |||
    (if header.isContinuingSegment then continuingSegment else 0) |||
    (if header.isBeginningSegment then beginSegment else 0)

def encodeBtpPacketHeader : Except BtpError (List UInt8) :=
  if header.isHandshakeRequest || header.hasManagementOpcode then
    .error (.btpProtocol "Please use the specific methods to encode a Handshake packet")
  else .ok (DataWriter.empty.writeUInt8 (bitsOfHeader header)).bytes

variable (payload : BtpPacketPayload)

/-- Validates the header against the fields of the payload. -/
def validatePayload : Except BtpError Unit :=
  if !header.hasAckNumber && payload.ackNumber.isSome then
    .error (.btpProtocol "Ack number shouldn't be set because header flag is not set.")
  else if header.hasAckNumber && payload.ackNumber.isNone then
    .error (.btpProtocol "Ack number needs to be set because header flag is set.")
  else if header.isBeginningSegment && header.isContinuingSegment then
    .error (.btpProtocol "Beginning and continuing segment flags can't be set at the same time.")
  else if header.isEndingSegment && !header.isContinuingSegment && !header.isBeginningSegment then
    .error (.btpProtocol "Ending segment flag can't be set without continuing segment flag.")
  else if (header.isBeginningSegment || header.isContinuingSegment) &&
      payload.segmentPayload.isEmpty then
    .error (.btpProtocol
      "Payload needs to be set because header flag indicates a message with payload.")
  else if header.isBeginningSegment && payload.messageLength.isNone then
    .error (.btpProtocol "Message length needs to be set because packet is a beginning segment.")
  else if !header.isBeginningSegment && payload.messageLength.isSome then
    .error (.btpProtocol
      "Message length shouldn't be set because the package is not a beginning segment.")
  else .ok ()

def encodeBtpPacketPayload :
    Except BtpError (List UInt8) := do
  validatePayload header payload
  let writer := match payload.ackNumber with
    | some ackNumber => DataWriter.empty.writeUInt8 ackNumber
    | none => .empty
  let writer := writer.writeUInt8 payload.sequenceNumber
  let writer := match payload.messageLength with
    | some messageLength => writer.writeUInt16 messageLength
    | none => writer
  return (writer.writeByteArray payload.segmentPayload).bytes

def encodeBtpPacket (packet : BtpPacket) : Except BtpError (List UInt8) := do
  let header ← encodeBtpPacketHeader packet.header
  let payload ← encodeBtpPacketPayload packet.header packet.payload
  return header ++ payload

end BtpCodec

/-- The packets that can be encoded and are read back as they are. -/
structure BtpPacket.Valid (packet : BtpPacket) : Prop where
  handshake : packet.header.isHandshakeRequest = false
  management : packet.header.hasManagementOpcode = false
  payload : BtpCodec.validatePayload packet.header packet.payload = .ok ()
  ack : ∀ ackNumber, packet.payload.ackNumber = some ackNumber → 0 ≤ ackNumber ∧ ackNumber < 256
  sequence : 0 ≤ packet.payload.sequenceNumber ∧ packet.payload.sequenceNumber < 256
  length : ∀ messageLength, packet.payload.messageLength = some messageLength →
    messageLength < 65536

namespace BtpPacket

def bytes (packet : BtpPacket) : List UInt8 :=
  UInt8.ofNat (BtpCodec.bitsOfHeader packet.header) ::
    (packet.payload.ackNumber.elim [] (fun n => [UInt8.ofNat n.toNat]) ++
      UInt8.ofNat packet.payload.sequenceNumber.toNat ::
        (packet.payload.messageLength.elim [] (LittleEndian.encode 2) ++
          packet.payload.segmentPayload))

end BtpPacket

variable {n : Nat} {he : BtpHeader} {p : BtpPacketPayload}

section Bytes

theorem writeUInt8_eq (w : DataWriter) {n : Int} (h₀ : 0 ≤ n) (h : n < 256) :
    w.writeUInt8 n = ⟨w.bytes ++ [UInt8.ofNat n.toNat]⟩ := by
  have hr : Ieee754.roundInteger n = n := Ieee754.roundInteger_of_lt (by omega)
  have hw : LittleEndian.wrap 1 n = n.toNat := by
    have := LittleEndian.wrap_of_nonneg (w := 1) h₀ (by omega)
    omega
  simp [DataWriter.writeUInt8, DataWriter.writeNumber, DataWriter.writeByteArray, hr,
    LittleEndian.encodeInt, hw, LittleEndian.encode]

theorem writeUInt16_eq (w : DataWriter) (h : n < 65536) :
    w.writeUInt16 n = ⟨w.bytes ++ LittleEndian.encode 2 n⟩ := by
  have hr : Ieee754.roundInteger (n : Int) = n := Ieee754.roundInteger_of_lt (by omega)
  have hw : LittleEndian.wrap 2 (n : Int) = n := by
    rw [LittleEndian.wrap_natCast, Nat.mod_eq_of_lt (by omega)]
  simp [DataWriter.writeUInt16, DataWriter.writeNumber, DataWriter.writeByteArray, hr,
    LittleEndian.encodeInt, hw]

theorem readUInt8_cons (o : Nat) (b : UInt8) (rest : List UInt8) :
    DataReader.readUInt8 ⟨o, b :: rest⟩ = .ok (b.toNat, ⟨o + 1, rest⟩) := by
  simp [DataReader.readUInt8, DataReader.readUInt, DataReader.advance, LittleEndian.decode,
    bind, Except.bind, pure, Except.pure]

theorem readUInt16_append (o : Nat) (h : n < 65536) (rest : List UInt8) :
    DataReader.readUInt16 ⟨o, LittleEndian.encode 2 n ++ rest⟩ = .ok (n, ⟨o + 2, rest⟩) := by
  have hd := LittleEndian.decode_encode_of_lt (w := 2) (n := n) (by omega)
  have hl := LittleEndian.length_encode 2 n
  have ha : DataReader.advance ⟨o, LittleEndian.encode 2 n ++ rest⟩ 2 =
      .ok (LittleEndian.encode 2 n, ⟨o + 2, rest⟩) := by
    unfold DataReader.advance
    rw [if_neg (by simp only [List.length_append, hl]; omega), List.take_left' hl,
      List.drop_left' hl]
  unfold DataReader.readUInt16 DataReader.readUInt
  rw [ha, Tlv.ok_bind]
  simp only [hd]
  rfl

end Bytes

section Decoded

open BtpCodec

theorem liftRead_readUInt8_ok {r r' : DataReader}
    (h : liftRead r.readUInt8 = .ok (n, r')) : n < 256 := by
  obtain ⟨off, e⟩ := r
  cases e with
  | nil => simp [DataReader.readUInt8, DataReader.readUInt, DataReader.advance, liftRead] at h
  | cons b rest =>
    simp only [readUInt8_cons, liftRead, Except.ok.injEq, Prod.mk.injEq] at h
    have := b.toNat_lt
    omega

/-- The numbers of a packet that was read are bytes, and its flags say which are there. -/
structure BtpPacket.Decoded (packet : BtpPacket) : Prop where
  ack : ∀ ackNumber, packet.payload.ackNumber = some ackNumber → 0 ≤ ackNumber ∧ ackNumber < 256
  sequence : 0 ≤ packet.payload.sequenceNumber ∧ packet.payload.sequenceNumber < 256
  hasAck : packet.header.hasAckNumber = packet.payload.ackNumber.isSome

theorem readIf_ok {p : Bool} {read : DataReader → Except TlvError (Nat × DataReader)}
    {reader r' : DataReader} {n? : Option Nat} (h : readIf p read reader = .ok (n?, r')) :
    p = n?.isSome ∧ ∀ n, n? = some n → liftRead (read reader) = .ok (n, r') := by
  cases p with
  | false =>
    cases h
    exact ⟨rfl, by simp⟩
  | true =>
    obtain ⟨r, hd, h⟩ := Tlv.ok_of_bind h
    cases h
    refine ⟨rfl, ?_⟩
    rintro n ⟨⟩
    exact hd

theorem decodeBtpPacketPayload_ok {reader : DataReader}
    (h : decodeBtpPacketPayload reader he = .ok p) : BtpPacket.Decoded ⟨he, p⟩ := by
  obtain ⟨ack, hc, h⟩ := Tlv.ok_of_bind h
  obtain ⟨s, hs, h⟩ := Tlv.ok_of_bind h
  obtain ⟨l, -, h⟩ := Tlv.ok_of_bind h
  cases h
  obtain ⟨hf, hd⟩ := readIf_ok hc
  have hl := liftRead_readUInt8_ok hs
  refine ⟨?_, ⟨by simp, by simpa using hl⟩, by simpa using hf⟩
  intro a ha
  obtain ⟨n, hn, rfl⟩ := Option.map_eq_some_iff.mp ha
  have := liftRead_readUInt8_ok (hd n hn)
  simp only [Int.ofNat_eq_natCast]
  omega

theorem decodeBtpPacket_ok {data : List UInt8} {packet : BtpPacket}
    (h : decodeBtpPacket data = .ok packet) : packet.Decoded := by
  obtain ⟨he, -, h⟩ := Tlv.ok_of_bind h
  obtain ⟨p, hp, h⟩ := Tlv.ok_of_bind h
  cases h
  exact decodeBtpPacketPayload_ok hp

end Decoded

section Handshake

structure BtpHandshakeRequest where
  versions : List Nat
  attMtu : Nat
  clientWindowSize : Nat

structure BtpHandshakeResponse where
  version : Nat
  attMtu : Nat
  windowSize : Nat

namespace BtpCodec

def handshakeHeader : Nat := 0b01100101

def handshakeManagementOpcode : Nat := 0x6c

/-- The two versions in a byte, the first in the low half. -/
def versionsOf (version : Nat) : List Nat := [version &&& 0x0f, (version &&& 0xf0) >>> 4]

def decodeBtpHandshakeRequest (data : List UInt8) : Except BtpError BtpHandshakeRequest := do
  let (header, reader) ← liftRead (DataReader.of data).readUInt8
  let (opcode, reader) ← liftRead reader.readUInt8
  let (version0, reader) ← liftRead reader.readUInt8
  if header ≠ handshakeHeader then
    .error (.btpProtocol "Header for expected BTP Handshake Request is incorrect.")
  else if opcode ≠ handshakeManagementOpcode then
    .error (.btpProtocol "Management Opcode for BTP Handshake Request is incorrect.")
  else do
    let (version1, reader) ← liftRead reader.readUInt8
    let (version2, reader) ← liftRead reader.readUInt8
    let (version3, reader) ← liftRead reader.readUInt8
    let versions := ([version0, version1, version2, version3].flatMap versionsOf).filter
      (fun v => v ≠ 0)
    if versions.isEmpty then .error (.btpProtocol "No valid version provided.")
    else do
      let (attMtu, reader) ← liftRead reader.readUInt16
      let (clientWindowSize, _) ← liftRead reader.readUInt8
      return ⟨versions, attMtu, clientWindowSize⟩

def encodeBtpHandshakeResponse (response : BtpHandshakeResponse) : List UInt8 :=
  let writer := DataWriter.empty.writeUInt8 handshakeHeader
  let writer := writer.writeUInt8 handshakeManagementOpcode
  let writer := writer.writeUInt8 (response.version &&& 0x0f : Nat)
  let writer := writer.writeUInt16 response.attMtu
  (writer.writeUInt8 response.windowSize).bytes

def decodeBtpHandshakeResponsePayload (data : List UInt8) :
    Except BtpError BtpHandshakeResponse := do
  let (header, reader) ← liftRead (DataReader.of data).readUInt8
  if header ≠ handshakeHeader then
    .error (.btpProtocol "Header for expected BTP Handshake Request is incorrect.")
  else do
    let (opcode, reader) ← liftRead reader.readUInt8
    if opcode ≠ handshakeManagementOpcode then
      .error (.btpProtocol "Management Opcode for BTP Handshake Request is incorrect.")
    else do
      let (version, reader) ← liftRead reader.readUInt8
      let (attMtu, reader) ← liftRead reader.readUInt16
      let (windowSize, _) ← liftRead reader.readUInt8
      return ⟨version &&& 0x0f, attMtu, windowSize⟩

theorem decode_encodeBtpHandshakeResponse {rs : BtpHandshakeResponse}
    (hvr : rs.version < 16) (hm : rs.attMtu < 65536) (hw : rs.windowSize < 256) :
    decodeBtpHandshakeResponsePayload (encodeBtpHandshakeResponse rs) = .ok rs := by
  obtain ⟨ve, attMtu, ws⟩ := rs
  simp only at hvr hm hw
  have hv : ve &&& 0x0f = ve := by
    rw [show (0x0f : Nat) = 2 ^ 4 - 1 by rfl, Nat.and_two_pow_sub_one_eq_mod]
    exact Nat.mod_eq_of_lt hvr
  have hb : encodeBtpHandshakeResponse ⟨ve, attMtu, ws⟩ =
      UInt8.ofNat handshakeHeader :: UInt8.ofNat handshakeManagementOpcode ::
        UInt8.ofNat ve :: (LittleEndian.encode 2 attMtu ++ [UInt8.ofNat ws]) := by
    simp only [encodeBtpHandshakeResponse, hv]
    rw [writeUInt8_eq _ (n := (handshakeHeader : Int)) (by decide) (by decide),
      writeUInt8_eq _ (n := (handshakeManagementOpcode : Int)) (by decide) (by decide),
      writeUInt8_eq _ (n := (ve : Int)) (by omega) (by omega), writeUInt16_eq _ hm,
      writeUInt8_eq _ (n := (ws : Int)) (by omega) (by omega)]
    simp [DataWriter.empty]
  have h1 : (UInt8.ofNat ve).toNat = ve := by simp; omega
  have h2 : (UInt8.ofNat ws).toNat = ws := by simp; omega
  have h3 : (UInt8.ofNat handshakeHeader).toNat = handshakeHeader := rfl
  have h4 : (UInt8.ofNat handshakeManagementOpcode).toNat = handshakeManagementOpcode := rfl
  simp only [decodeBtpHandshakeResponsePayload, hb, DataReader.of, readUInt8_cons, liftRead,
    Tlv.ok_bind, h1, h2, h3, h4, readUInt16_append _ hm, hv]
  rfl

end BtpCodec

end Handshake

section RoundTrip

open BtpCodec BtpHeaderBits

theorem headerOfBits_bitsOfHeader (he : BtpHeader) :
    headerOfBits (UInt8.ofNat (bitsOfHeader he)).toNat =
      { he with isHandshakeRequest := false, hasManagementOpcode := false } := by
  obtain ⟨_, _, hasAck, i, c, b⟩ := he
  cases hasAck <;> cases i <;> cases c <;> cases b <;> simp [bitsOfHeader] <;> rfl

theorem encodeBtpPacketHeader_ok {bs : List UInt8}
    (h : encodeBtpPacketHeader he = .ok bs) : bs = [UInt8.ofNat (bitsOfHeader he)] := by
  unfold encodeBtpPacketHeader at h
  split_ifs at h
  have hl : bitsOfHeader he < 256 := by
    obtain ⟨_, _, hasAck, i, c, b⟩ := he
    cases hasAck <;> cases i <;> cases c <;> cases b <;> simp [bitsOfHeader] <;> decide
  rw [← Except.ok.inj h, writeUInt8_eq _ (by omega) (by omega)]
  rfl

/-- What the validation of a payload says about the fields that depend on the header. -/
theorem validatePayload_ok (h : validatePayload he p = .ok ()) :
    he.hasAckNumber = p.ackNumber.isSome ∧ he.isBeginningSegment = p.messageLength.isSome := by
  unfold validatePayload at h
  split_ifs at h with h1 h2 h3 h4 h5 h6 h7
  cases ha : p.ackNumber <;> cases hl : p.messageLength <;> simp_all

variable {pc : BtpPacket}

theorem encodeBtpPacket_eq (h : pc.Valid) : encodeBtpPacket pc = .ok pc.bytes := by
  obtain ⟨he, an, sn, m, s⟩ := pc
  have hd : encodeBtpPacketHeader he = .ok [UInt8.ofNat (bitsOfHeader he)] := by
    have ho : encodeBtpPacketHeader he =
        .ok (DataWriter.empty.writeUInt8 (bitsOfHeader he)).bytes := by
      have hh := h.handshake
      have hm := h.management
      simp only at hh hm
      simp [encodeBtpPacketHeader, hh, hm]
    rw [ho, encodeBtpPacketHeader_ok ho]
  have hp := h.payload
  obtain ⟨hs₀, hs⟩ := h.sequence
  simp only [encodeBtpPacket, hd, encodeBtpPacketPayload, hp]
  cases an with
  | none =>
    cases m with
    | none => simp [writeUInt8_eq _ hs₀ hs, DataWriter.empty, DataWriter.writeByteArray,
        BtpPacket.bytes, bind, Except.bind, pure, Except.pure]
    | some n => simp [writeUInt8_eq _ hs₀ hs, writeUInt16_eq _ (h.length n rfl), DataWriter.empty,
        DataWriter.writeByteArray, BtpPacket.bytes, bind, Except.bind, pure, Except.pure]
  | some a =>
    obtain ⟨ha₀, ha⟩ := h.ack a rfl
    cases m with
    | none => simp [writeUInt8_eq _ hs₀ hs, writeUInt8_eq _ ha₀ ha, DataWriter.empty,
        DataWriter.writeByteArray, BtpPacket.bytes, bind, Except.bind, pure, Except.pure]
    | some n => simp [writeUInt8_eq _ hs₀ hs, writeUInt8_eq _ ha₀ ha,
        writeUInt16_eq _ (h.length n rfl), DataWriter.empty, DataWriter.writeByteArray,
        BtpPacket.bytes, bind, Except.bind, pure, Except.pure]

theorem decodeBtpPacket_bytes (h : pc.Valid) : decodeBtpPacket pc.bytes = .ok pc := by
  obtain ⟨⟨hh, hm, hasAck, i, c, b⟩, an, s, messageLength, segmentPayload⟩ := pc
  obtain rfl : hh = false := h.handshake
  obtain rfl : hm = false := h.management
  obtain ⟨hc, hb⟩ := validatePayload_ok h.payload
  obtain ⟨hs₀, hs⟩ := h.sequence
  have hy : ∀ n : Int, 0 ≤ n → n < 256 → ((UInt8.ofNat n.toNat).toNat : Int) = n := by
    simp
    omega
  have hq := hy s hs₀ hs
  simp only at hc hb hs₀ hs
  have hd : decodeBtpPacketHeader (.of (BtpPacket.bytes ⟨⟨false, false, hasAck, i,
      c, b⟩, an, s, messageLength, segmentPayload⟩)) =
      .ok (⟨false, false, hasAck, i, c, b⟩, ⟨1, an.elim [] (fun n => [UInt8.ofNat n.toNat]) ++
          UInt8.ofNat s.toNat ::
            (messageLength.elim [] (LittleEndian.encode 2) ++ segmentPayload)⟩) := by
    simp only [decodeBtpPacketHeader, DataReader.of, BtpPacket.bytes, readUInt8_cons, liftRead,
      Tlv.ok_bind, headerOfBits_bitsOfHeader]
    rfl
  simp only [decodeBtpPacket, hd, bind]
  subst hc hb
  cases an with
  | none =>
    cases messageLength with
    | none => simp [decodeBtpPacketPayload, readIf, readUInt8_cons, liftRead, hq,
        bind, Except.bind, pure, Except.pure, -UInt8.toNat_ofNat']
    | some n => simp [decodeBtpPacketPayload, readIf, readUInt8_cons, liftRead, hq,
        readUInt16_append _ (h.length n rfl), bind, Except.bind, pure, Except.pure,
        -UInt8.toNat_ofNat']
  | some a =>
    obtain ⟨ha₀, ha⟩ := h.ack a rfl
    cases messageLength with
    | none => simp [decodeBtpPacketPayload, readIf, readUInt8_cons, liftRead, hq, hy a ha₀ ha,
        bind, Except.bind, pure, Except.pure, -UInt8.toNat_ofNat']
    | some n => simp [decodeBtpPacketPayload, readIf, readUInt8_cons, liftRead, hq, hy a ha₀ ha,
        readUInt16_append _ (h.length n rfl), bind, Except.bind, pure, Except.pure,
        -UInt8.toNat_ofNat']

end RoundTrip

end MatterJs.Btp
