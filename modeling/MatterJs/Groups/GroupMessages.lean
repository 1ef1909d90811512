import MatterJs.Groups.FabricGroups
import MatterJs.Foundation.TransitionSystem

/-! The group messages of one fabric, while its key sets are written and removed and its fabric
object is replaced. The derivation of keys ends a step. -/
namespace MatterJs.Groups

open MatterJs.Reception

/-- A `setFromGroupKeySet` that derives its keys, with the fabric object and the entry it found
there. After a fabric was replaced its key sets are written again. -/
structure KeySetWrite where
  fabric : Nat
  keySet : OperationalKeySet
  previousEntry : Option OperationalKeySet
  restores : Bool

/-- A group session of a source node. It keeps the fabric object it was created for. -/
structure GroupSession where
  peerNodeId : Nat
  operationalGroupKey : Nat
  fabric : Nat

structure GroupNode where
  /-- The fabric objects. -/
  groups : Nat → FabricGroups
  /-- The object in the fabric manager. -/
  fabric : Nat
  groupKeySets : List GroupKeySet
  writes : List KeySetWrite
  sessions : List GroupSession
  /-- The counters that were received under a key from a source since the key was last without a
  key set, with whether they were accepted. -/
  received : Nat → Nat → List (Int × Bool)

inductive GroupEvent
  /-- KeySetWrite, up to the derivation of the keys, and its end. -/
  | keySetWrite (keySet : GroupKeySet)
  | derived (write : Nat)
  | keySetRemove (groupKeySetId : Nat)
  /-- UpdateNOC. -/
  | replaceFabric
  | closeSession (session : Nat)
  /-- A message that is authenticated under the key. -/
  | receive (key source : Nat) (counter : UInt32)

namespace GroupNode

variable (derivation : KeyDerivation) (identityProtectionKey operationalIdentityProtectionKey : Nat)

def new : GroupNode where
  groups _ := .new identityProtectionKey operationalIdentityProtectionKey
  fabric := 0
  groupKeySets := []
  writes := []
  sessions := []
  received _ _ := []

variable (s : GroupNode)

/-- The key is in a key set of the fabric, or in one that is being set again on the new fabric
object. -/
def referenced (key : Nat) : Bool :=
  (s.groups s.fabric).referencedKeys.contains key ||
    s.writes.any (fun write =>
      write.restores && write.fabric == s.fabric && write.keySet.keys.contains key)

/-- Forgets what was received under the keys that no key set has. -/
def trim : GroupNode :=
  { s with received := fun key source => if s.referenced key then s.received key source else [] }

/-- `setFromGroupKeySet` on the fabric object, up to the derivation of the keys. -/
def beginWrite (restores : Bool) (keySet : GroupKeySet) : GroupNode :=
  match keySet.derive derivation with
  | none => s
  | some operational =>
    { s with writes := s.writes ++
        [⟨s.fabric, operational, (s.groups s.fabric).keySet keySet.groupKeySetId, restores⟩] }

def store (keySet : GroupKeySet) : List GroupKeySet :=
  if s.groupKeySets.any (·.groupKeySetId == keySet.groupKeySetId) then
    s.groupKeySets.map (fun entry =>
      if entry.groupKeySetId = keySet.groupKeySetId then keySet else entry)
  else s.groupKeySets ++ [keySet]

def setGroups (fabric : Nat) (groups : FabricGroups) : GroupNode :=
  { s with groups := Function.update s.groups fabric groups }

/-- `replaceFabric`, and the start of `#handleFabricUpdate`. -/
def replaceFabric : GroupNode :=
  let fabric := s.fabric + 1
  let replaced := { s.setGroups fabric
    (.new identityProtectionKey operationalIdentityProtectionKey) with fabric }
  s.groupKeySets.foldl (fun s keySet => s.beginWrite derivation true keySet) replaced

/-- `groupSessionFromPacket`: the session of the source for the key, or a new one. -/
def sessionFor (key source : Nat) : GroupSession × List GroupSession :=
  match s.sessions.find? (fun session =>
      session.peerNodeId == source && session.operationalGroupKey == key) with
  | some session => (session, s.sessions)
  | none => (⟨source, key, s.fabric⟩, s.sessions ++ [⟨source, key, s.fabric⟩])

/-- A message that a key of the fabric decrypts is checked against the replay window of its
session's fabric object. -/
def receive (key source : Nat) (counter : Int) : GroupNode :=
  let (session, sessions) := s.sessionFor key source
  let (accepted, groups) := (s.groups session.fabric).updateMessageCounter key source counter
  { s.setGroups session.fabric groups with
    sessions
    received := Function.update s.received key
      (Function.update (s.received key) source (s.received key source ++ [(counter, accepted)])) }

/-- The step without the bookkeeping. -/
def next : GroupEvent → Option GroupNode
  | .keySetWrite keySet =>
    if keySet.epochKey0.isSome then
      some ({ s with groupKeySets := s.store keySet }.beginWrite derivation false keySet)
    else none
  | .derived write =>
    (s.writes[write]?).map (fun entry =>
      { s.setGroups entry.fabric
          ((s.groups entry.fabric).setKeySet entry.keySet entry.previousEntry) with
        writes := s.writes.eraseIdx write })
  | .keySetRemove groupKeySetId =>
    if groupKeySetId ≠ 0 ∧ s.groupKeySets.any (·.groupKeySetId == groupKeySetId) then
      some { s.setGroups s.fabric ((s.groups s.fabric).removeGroupKeySet groupKeySetId) with
        groupKeySets := s.groupKeySets.filter (·.groupKeySetId != groupKeySetId) }
    else none
  | .replaceFabric =>
    some (s.replaceFabric derivation identityProtectionKey operationalIdentityProtectionKey)
  | .closeSession session => some { s with sessions := s.sessions.eraseIdx session }
  | .receive key source counter =>
    if key ∈ (s.groups s.fabric).sessionKeys then
      some (s.receive key source (counter.toNat : Int))
    else none

def step (event : GroupEvent) : Option GroupNode :=
  (s.next derivation identityProtectionKey operationalIdentityProtectionKey event).map trim

end GroupNode

end MatterJs.Groups
