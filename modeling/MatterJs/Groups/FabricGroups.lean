import MatterJs.Foundation.EntryMap
import MatterJs.Reception.Rollover

/-! The group keys of a fabric, its groups, and the replay windows of the messages sent to them. -/
namespace MatterJs.Groups

open MatterJs.Reception Function

/-- `IPK_DEFAULT_EPOCH_START_TIME`, in microseconds. -/
def ipkDefaultEpochStartTime : Nat := 946684800000000

/-- A key set as the cluster has it. -/
structure GroupKeySet where
  groupKeySetId : Nat
  epochKey0 : Option Nat
  epochStartTime0 : Option Nat
  epochKey1 : Option Nat
  epochStartTime1 : Option Nat
  epochKey2 : Option Nat
  epochStartTime2 : Option Nat
  groupKeySecurityPolicy : Nat
  groupKeyMulticastPolicy : Option Nat

/-- A key set with the operational keys that are derived from its epoch keys. -/
structure OperationalKeySet extends GroupKeySet where
  operationalEpochKey0 : Nat
  groupSessionId0 : Option Nat
  operationalEpochKey1 : Option Nat
  groupSessionId1 : Option Nat
  operationalEpochKey2 : Option Nat
  groupSessionId2 : Option Nat

/-- What the key derivation of a fabric answers. -/
structure KeyDerivation where
  operationalKey : Nat → Nat
  sessionIdFromKey : Nat → Nat

/-- The operational keys of a key set. -/
def OperationalKeySet.keys (keySet : OperationalKeySet) : List Nat :=
  keySet.operationalEpochKey0 ::
    (keySet.operationalEpochKey1.toList ++ keySet.operationalEpochKey2.toList)

/-- What `setFromGroupKeySet` derives. It throws if the first epoch key is missing. -/
def GroupKeySet.derive (derivation : KeyDerivation) (keySet : GroupKeySet) :
    Option OperationalKeySet :=
  keySet.epochKey0.map (fun epochKey0 =>
    let key0 := derivation.operationalKey epochKey0
    let key1 := keySet.epochKey1.map derivation.operationalKey
    let key2 := keySet.epochKey2.map derivation.operationalKey
    { keySet with
      operationalEpochKey0 := key0
      groupSessionId0 := some (derivation.sessionIdFromKey key0)
      operationalEpochKey1 := key1
      groupSessionId1 := key1.map derivation.sessionIdFromKey
      operationalEpochKey2 := key2
      groupSessionId2 := key2.map derivation.sessionIdFromKey })

structure FabricGroups where
  keySets : List OperationalKeySet
  groupKeyIdMap : Nat → Option Nat
  endpoints : Nat → Option (List Nat)
  /-- The reception states by operational key and source node. -/
  reception : Nat → Nat → Option ReceptionState

namespace FabricGroups

variable (identityProtectionKey operationalIdentityProtectionKey : Nat)

/-- The key set 0 of a fabric that nobody has written, with the identity protection key. -/
def initialKeySet :
    OperationalKeySet where
  groupKeySetId := 0
  epochKey0 := some identityProtectionKey
  operationalEpochKey0 := operationalIdentityProtectionKey
  epochStartTime0 := some ipkDefaultEpochStartTime
  groupSessionId0 := none
  epochKey1 := none
  operationalEpochKey1 := none
  epochStartTime1 := none
  groupSessionId1 := none
  epochKey2 := none
  operationalEpochKey2 := none
  epochStartTime2 := none
  groupSessionId2 := none
  groupKeySecurityPolicy := 0
  groupKeyMulticastPolicy := some 0

def new : FabricGroups where
  keySets := [initialKeySet identityProtectionKey operationalIdentityProtectionKey]
  groupKeyIdMap _ := none
  endpoints _ := none
  reception _ _ := none

variable (g : FabricGroups) (groupKeySetId : Nat)

def keySet : Option OperationalKeySet :=
  g.keySets.find? (·.groupKeySetId == groupKeySetId)

/-- Every operational key of some key set. -/
def referencedKeys : List Nat :=
  g.keySets.flatMap OperationalKeySet.keys

/-- The keys that messages are decrypted with: the key set 0 is no group's. -/
def sessionKeys : List Nat :=
  (g.keySets.filter (·.groupKeySetId != 0)).flatMap OperationalKeySet.keys

def deleteKeySet : FabricGroups :=
  { g with keySets := g.keySets.filter (·.groupKeySetId != groupKeySetId) }

def addKeySet (keySet : OperationalKeySet) : FabricGroups :=
  { g with
    keySets := g.keySets.filter (·.groupKeySetId != keySet.groupKeySetId) ++ [keySet] }

def forgetReceptionState (key : Nat) : FabricGroups :=
  { g with reception := update g.reception key (fun _ => none) }

variable (f : OperationalKeySet)

def forgetUnreferenced : FabricGroups :=
  f.keys.foldl (fun forgotten key =>
    if key ∈ g.referencedKeys then forgotten else forgotten.forgetReceptionState key) g

/-- Setting `idMap`: the new entries are taken over, then the groups that have none are deleted. -/
def setGroupKeyIdMap (map : List (Nat × Nat)) : FabricGroups :=
  let added := EntryMap.setAll Prod.fst Prod.snd g.groupKeyIdMap map
  { g with groupKeyIdMap := fun groupId =>
      if map.any (·.1 == groupId) then added groupId else none }

def setEndpoints (groupId : Nat) (endpoints : List Nat) : FabricGroups :=
  { g with endpoints := update g.endpoints groupId (some endpoints) }

/-- The end of `setFromGroupKeySet`, once the keys have been derived. -/
def setKeySet (keySet : OperationalKeySet) (previousEntry : Option OperationalKeySet) :
    FabricGroups :=
  previousEntry.elim (g.addKeySet keySet) (g.addKeySet keySet).forgetUnreferenced

/-- `removeGroupKeySet`, for a key set that is not the key set 0. -/
def removeGroupKeySet : FabricGroups :=
  (g.keySet groupKeySetId).elim (g.deleteKeySet groupKeySetId)
    (g.deleteKeySet groupKeySetId).forgetUnreferenced

/-- `receptionStateFor`, which creates the state that is missing, and `updateMessageCounter` on
it. -/
def updateMessageCounter (key source : Nat) (counter : Int) : Bool × FabricGroups :=
  let state := (g.reception key source).getD (encryptedWithRollover.construct none)
  (encryptedWithRollover.accepts state counter,
    { g with
      reception := update g.reception key
        (update (g.reception key) source
          (some (encryptedWithRollover.updateMessageCounter state counter).2)) })

/-! ### What forgetting leaves alone -/

theorem foldl_forget (keys kept : List Nat) : let forgotten := keys.foldl (fun forgotten key =>
      if key ∈ kept then forgotten else forgotten.forgetReceptionState key) g
    forgotten.keySets = g.keySets ∧ forgotten.groupKeyIdMap = g.groupKeyIdMap ∧
      forgotten.endpoints = g.endpoints ∧ ∀ key s, forgotten.reception key s = g.reception key s ∨
          forgotten.reception key s = none ∧ key ∉ kept := by
  induction keys generalizing g with
  | nil => exact ⟨rfl, rfl, rfl, fun _ _ => .inl rfl⟩
  | cons key keys ih =>
    simp only [List.foldl_cons]
    by_cases hp : key ∈ kept
    · rw [if_pos hp]
      exact ih g
    · rw [if_neg hp]
      obtain ⟨hk, hi, he, hr⟩ := ih (g.forgetReceptionState key)
      refine ⟨hk, hi, he, ?_⟩
      intro key' s
      rcases hr key' s with hs | hf
      · by_cases hy : key' = key
        · subst hy
          refine .inr ⟨hs.trans ?_, hp⟩
          simp [forgetReceptionState]
        · refine .inl (hs.trans ?_)
          simp [forgetReceptionState, hy]
      · exact .inr hf

theorem forget_spec : (g.forgetUnreferenced f).keySets = g.keySets ∧
    (g.forgetUnreferenced f).groupKeyIdMap = g.groupKeyIdMap ∧ (g.forgetUnreferenced f).endpoints =
    g.endpoints ∧ ∀ key s, (g.forgetUnreferenced f).reception key s = g.reception key s ∨
    (g.forgetUnreferenced f).reception key s = none ∧ key ∉ g.referencedKeys :=
  g.foldl_forget f.keys g.referencedKeys

end FabricGroups

end MatterJs.Groups
