import MatterJs.Foundation.LittleEndian
import MatterJs.Foundation.TransitionSystem
import Mathlib.Logic.Function.Basic

/-! The check-in clients of a fabric, with every call of `processCheckIn` under way. A call is
suspended while a payload is decrypted under the key that the peer had when the decryption began.
The wakefulness of a peer is left out. -/
namespace MatterJs.Icd

open Function

def NONCE_LENGTH : Nat := 13
def MIC_LENGTH : Nat := 16
def COUNTER_LENGTH : Nat := 4
def MIN_PAYLOAD_LENGTH : Nat := NONCE_LENGTH + COUNTER_LENGTH + MIC_LENGTH
def KEY_REFRESH_OFFSET : Nat := 0x80000000

/-- The operations of the platform's crypto that check-ins need. -/
structure Crypto where
  decrypt (key ciphertext nonce : List UInt8) : Option (List UInt8)
  signHmac (key data : List UInt8) : List UInt8

structure DecodedIcdCheckIn where
  counter : Nat
  activeModeThreshold : Nat
deriving DecidableEq

structure Peer where
  peerNodeId : Nat
  key : List UInt8
  counterStart : Nat
  lastOffset : Nat

namespace CheckInMessage

variable (crypto : Crypto)

def generateNonce (key : List UInt8) (counter : Nat) : List UInt8 :=
  (crypto.signHmac key (LittleEndian.encode COUNTER_LENGTH counter)).take NONCE_LENGTH

variable (key payload : List UInt8)

def decode : Except String (Nat × List UInt8) := do
  let length := payload.length
  if length < MIN_PAYLOAD_LENGTH then
    throw s!"Check-In payload too short: {length} < {MIN_PAYLOAD_LENGTH}"
  let nonce := payload.take NONCE_LENGTH
  let ciphertext := payload.drop NONCE_LENGTH
  match crypto.decrypt key ciphertext nonce with
  | none => throw "Check-In message decryption failed"
  | some plaintext =>
    let size := plaintext.length
    if size < COUNTER_LENGTH then
      throw s!"Read of {COUNTER_LENGTH} bytes at offset 0 exceeds the {size} byte buffer"
    let counter := LittleEndian.decode (plaintext.take COUNTER_LENGTH)
    if nonce ≠ generateNonce crypto key counter then
      throw "Check-In nonce does not match counter"
    return (counter, plaintext.drop COUNTER_LENGTH)

def decodeIcd :
    Except String DecodedIcdCheckIn := do
  let (counter, appData) ← decode crypto key payload
  let length := appData.length
  if length < 2 then
    throw s!"ICD Check-In applicationData too short for activeModeThreshold: {length} < 2"
  return ⟨counter, LittleEndian.decode (appData.take 2)⟩

/-- The offset of a counter from a baseline, as an unsigned 32-bit number. -/
def offsetFrom (counterStart counter : Nat) : Nat := ((counter - counterStart : Int) % 2 ^ 32).toNat

structure CounterValidation where
  valid : Bool
  offset : Nat
  refreshNeeded : Bool

def validateCounter (counter : Nat) (state : Peer) : CounterValidation :=
  let offset := offsetFrom state.counterStart counter
  ⟨state.lastOffset < offset, offset, KEY_REFRESH_OFFSET ≤ offset⟩

end CheckInMessage

/-- A call of `processCheckIn`: suspended in the decryption for an entry, with the position behind
the entry in the live iteration, or ended. -/
inductive Call
  | decoding (payload : List UInt8) (position entry : Nat) (key : List UInt8)
  | returned (matched : Bool)
deriving DecidableEq

/-- What a handler is told. Beside it stand the payload it comes from, the key in force for the
peer at this moment and how often the registration of the peer had changed. -/
structure ReceivedCheckIn where
  peerNodeId : Nat
  counter : Nat
  offset : Nat
  activeModeThreshold : Nat
  refreshNeeded : Bool
  payload : List UInt8
  inForce : Option (List UInt8)
  changes : Nat

/-- The map `#peers` has its keys in the order of insertion, a deleted one leaves a hole. A call of
`addPeer` makes a new entry, which holds the peer object it was given. `changes` counts the changes
of a registration, `given` is the position that the last one set. -/
structure FabricIcd where
  order : List (Option Nat) := []
  entryOf : Nat → Option Nat := fun _ => none
  peers : Nat → Peer := fun _ => ⟨0, [], 0, 0⟩
  entries : Nat := 0
  calls : List Call := []
  received : List ReceivedCheckIn := []
  changes : Nat → Nat := fun _ => 0
  given : Nat → Nat := fun _ => 0

inductive Event
  | addPeer (peer : Peer)
  | updatePeer (peerNodeId : Nat) (key : List UInt8) (counterStart lastOffset : Nat)
  | deletePeer (peerNodeId : Nat)
  | processCheckIn (payload : List UInt8)
  | decoded (call : Nat)

namespace FabricIcd

variable (s : FabricIcd) (peerNodeId : Nat)

def peerFor : Option Peer := (s.entryOf peerNodeId).map s.peers

def changed (peerNodeId lastOffset : Nat) : FabricIcd :=
  { s with
    changes := update s.changes peerNodeId (s.changes peerNodeId + 1)
    given := update s.given peerNodeId lastOffset }

def addPeer (peer : Peer) : FabricIcd :=
  { s.changed peer.peerNodeId peer.lastOffset with
    order := if (s.entryOf peer.peerNodeId).isSome then s.order
      else s.order ++ [some peer.peerNodeId]
    entryOf := update s.entryOf peer.peerNodeId (some s.entries)
    peers := update s.peers s.entries peer
    entries := s.entries + 1 }

def updatePeer (key : List UInt8)
    (counterStart lastOffset : Nat) : Except String FabricIcd :=
  match s.entryOf peerNodeId with
  | none => .error s!"Cannot update unregistered ICD peer {peerNodeId}."
  | some entry =>
    let peer := { s.peers entry with key, counterStart, lastOffset }
    .ok { s.changed peerNodeId lastOffset with peers := update s.peers entry peer }

def deletePeer : FabricIcd :=
  { s.changed peerNodeId 0 with
    order := s.order.map (fun slot => if slot = some peerNodeId then none else slot)
    entryOf := update s.entryOf peerNodeId none }

/-- The first entry at or behind a position of the map, with the position behind it. -/
def nextEntry : List (Option Nat) → Nat → Option (Nat × Nat)
  | [], _ => none
  | slot :: slots, position =>
    match slot.bind s.entryOf with
    | some entry => some (position + 1, entry)
    | none => nextEntry slots (position + 1)

/-- The loop of `processCheckIn` up to its next `await`, or to its end. -/
def visit (payload : List UInt8) (position : Nat) : Call :=
  match s.nextEntry (s.order.drop position) position with
  | some (position, entry) => .decoding payload position entry (s.peers entry).key
  | none => .returned false

def setCall (call : Nat) (value : Call) : FabricIcd :=
  { s with calls := s.calls.set call value }

/-- What the loop does with a decoded check-in. -/
def accept (call entry : Nat) (payload : List UInt8)
    (decoded : DecodedIcdCheckIn) : FabricIcd :=
  let peer := s.peers entry
  let validation := CheckInMessage.validateCounter decoded.counter peer
  if !validation.valid then s.setCall call (.returned true)
  else
    { s.setCall call (.returned true) with
      peers := update s.peers entry { peer with lastOffset := validation.offset }
      received := s.received ++ [{
        peerNodeId := peer.peerNodeId
        counter := decoded.counter
        offset := validation.offset
        activeModeThreshold := decoded.activeModeThreshold
        refreshNeeded := validation.refreshNeeded
        payload
        inForce := (s.peerFor peer.peerNodeId).map Peer.key
        changes := s.changes peer.peerNodeId }] }

def step (crypto : Crypto) (s : FabricIcd) : Event → Option FabricIcd
  | .addPeer peer => some (s.addPeer peer)
  | .updatePeer peerNodeId key counterStart lastOffset =>
    -- the caller gets the error
    some ((s.updatePeer peerNodeId key counterStart lastOffset).toOption.getD s)
  | .deletePeer peerNodeId => some (s.deletePeer peerNodeId)
  | .processCheckIn payload => some { s with calls := s.calls ++ [s.visit payload 0] }
  | .decoded call =>
    match s.calls[call]? with
    | some (.decoding payload position entry key) =>
      match CheckInMessage.decodeIcd crypto key payload with
      | .error _ => some (s.setCall call (s.visit payload position))
      | .ok decoded => some (s.accept call entry payload decoded)
    | _ => none

/-- Some call decrypts a payload for an entry of the peer. -/
def decrypting (peerNodeId : Nat) : Bool :=
  s.calls.any fun
    | .decoding _ _ entry _ => (s.peers entry).peerNodeId = peerNodeId
    | .returned _ => false

/-- The registration of a peer changes only while no call decrypts a payload for it. -/
def undisturbed : Event → Bool
  | .addPeer peer => !s.decrypting peer.peerNodeId
  | .updatePeer peerNodeId _ _ _ | .deletePeer peerNodeId => !s.decrypting peerNodeId
  | .processCheckIn _ | .decoded _ => true

end FabricIcd

end MatterJs.Icd
