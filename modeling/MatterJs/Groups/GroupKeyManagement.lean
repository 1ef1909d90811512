import MatterJs.Groups.FabricGroups
import MatterJs.Foundation.TransitionSystem

/-! The group key management cluster: its persisted lists and the operational groups of the fabrics,
which every operation changes along with them. An operation runs to its end. -/
namespace MatterJs.Groups

open Function

def max64BitTime : Nat := 0xffffffffffffffff

inductive Status
  | invalidAction
  | invalidCommand
  | constraintError
  | notFound
  | resourceExhausted

inductive GroupError
  | statusResponse (message : String) (status : Status)
  | matterFlow (message : String)

/-- A stored key set. -/
structure StoredKeySet extends GroupKeySet where
  fabricIndex : Nat

structure GroupKeyMapEntry where
  groupId : Nat
  groupKeySetId : Nat
  fabricIndex : Nat
deriving DecidableEq

/-- What the entry sets in the operational map. -/
def GroupKeyMapEntry.mapping (entry : GroupKeyMapEntry) : Nat × Nat :=
  (entry.groupId, entry.groupKeySetId)

/-- An entry of the group table. -/
structure GroupInfo where
  groupId : Nat
  endpoints : List Nat
  groupName : String
  fabricIndex : Nat
deriving DecidableEq

/-- The persisted state of the cluster. -/
structure ClusterState where
  groupKeySets : List StoredKeySet
  groupKeyMap : List GroupKeyMapEntry
  groupTable : List GroupInfo
  maxGroupKeysPerFabric : Nat
  maxGroupsPerFabric : Nat

/-- What the groups of a fabric object depend on. -/
structure FabricIdentity where
  derivation : KeyDerivation
  identityProtectionKey : Nat
  operationalIdentityProtectionKey : Nat

structure FabricObject extends FabricIdentity where
  groups : FabricGroups

def FabricIdentity.create (identity : FabricIdentity) : FabricObject where
  toFabricIdentity := identity
  groups := .new identity.identityProtectionKey identity.operationalIdentityProtectionKey

structure Server where
  state : ClusterState
  /-- The indexes of the fabrics. -/
  fabrics : List Nat
  fabric : Nat → FabricObject

def isApplicationGroupId (groupId : Nat) : Bool :=
  0x0001 ≤ groupId && groupId ≤ 0xfeff

namespace GroupKeySet

variable (groupKeySet : GroupKeySet)

/-- An epoch key with the maximum start time is disabled. -/
def disableSlots : GroupKeySet :=
  { groupKeySet with
    epochKey0 := if groupKeySet.epochStartTime0 = some max64BitTime then none
      else groupKeySet.epochKey0
    epochStartTime0 := if groupKeySet.epochStartTime0 = some max64BitTime then none
      else groupKeySet.epochStartTime0
    epochKey1 := if groupKeySet.epochStartTime1 = some max64BitTime then none
      else groupKeySet.epochKey1
    epochStartTime1 := if groupKeySet.epochStartTime1 = some max64BitTime then none
      else groupKeySet.epochStartTime1
    epochKey2 := if groupKeySet.epochStartTime2 = some max64BitTime then none
      else groupKeySet.epochKey2
    epochStartTime2 := if groupKeySet.epochStartTime2 = some max64BitTime then none
      else groupKeySet.epochStartTime2 }

/-- The second time is set and later than the first. -/
def later (first second : Option Nat) : Bool :=
  match first, second with
  | some first, some second => first < second
  | _, _ => false

/-- What `keySetWrite` has against a key set. It looks at the values of the request, in which the
slots are not disabled yet. -/
def refusal : Option String :=
  match groupKeySet.epochKey0, groupKeySet.epochStartTime0 with
  | some _, some epochStartTime0 =>
    if epochStartTime0 ≤ ipkDefaultEpochStartTime then some "EpochStartTime0 must not be 0"
    else if groupKeySet.epochKey1.isSome &&
        !later (some epochStartTime0) groupKeySet.epochStartTime1 then
      some "EpochStartTime1 must be set and greater than EpochStartTime0"
    else if groupKeySet.epochKey1.isNone && groupKeySet.epochStartTime1.isSome then
      some "EpochKey1 must be set if EpochStartTime1 is set"
    else if groupKeySet.epochKey2.isSome && groupKeySet.epochKey1.isNone then
      some "EpochKey1 must be set if EpochKey2 is set"
    else if groupKeySet.epochKey2.isSome &&
        !later groupKeySet.epochStartTime1 groupKeySet.epochStartTime2 then
      some "EpochStartTime2 must be set and greater than EpochStartTime1"
    else if groupKeySet.epochKey2.isNone && groupKeySet.epochStartTime2.isSome then
      some "EpochKey2 must be set if EpochStartTime2 is set"
    else if groupKeySet.groupKeySecurityPolicy ≠ 0 then
      some "GroupKeySecurityPolicy must be TrustFirst"
    else if groupKeySet.groupKeyMulticastPolicy.getD 0 ≠ 0 then
      some "GroupKeyMulticastPolicy must be PerGroupId"
    else none
  | _, _ => some "EpochKey0 and EpochStartTime0 must be set"

end GroupKeySet

/-! ### The checks before a commit -/

namespace ClusterState

def checkGroupKeyMap (knownGroupIds : List (Nat × Nat)) :
    List GroupKeyMapEntry → Except GroupError Unit
  | [] => .ok ()
  | entry :: entries =>
    let groupId := entry.groupId
    let fabricIndex := entry.fabricIndex
    if !isApplicationGroupId groupId then
      .error (.statusResponse "Only operational GroupIds are allowed in GroupKeyMap" .invalidAction)
    else if (fabricIndex, groupId) ∈ knownGroupIds then
      .error (.statusResponse s!"Duplicate GroupId {groupId} for FabricIndex {fabricIndex}"
        .constraintError)
    else checkGroupKeyMap ((fabricIndex, groupId) :: knownGroupIds) entries

variable (state : ClusterState)

def validateGroupKeyMap : Except GroupError Unit :=
  match checkGroupKeyMap [] state.groupKeyMap with
  | .error error => .error error
  | .ok () =>
    let maximum := state.maxGroupsPerFabric
    if state.groupKeyMap.any (fun entry =>
        maximum < state.groupKeyMap.countP (·.fabricIndex == entry.fabricIndex)) then
      .error (.statusResponse s!"Too many groups per fabric, maximum is {maximum}"
        .resourceExhausted)
    else .ok ()

def checkGroupTable (knownGroupIds : List (Nat × Nat)) : List GroupInfo → Except GroupError Unit
  | [] => .ok ()
  | entry :: entries =>
    let groupId := entry.groupId
    let fabricIndex := entry.fabricIndex
    if groupId = 0 then
      .error (.statusResponse "GroupId 0 can not be used as operational group id" .constraintError)
    else if (fabricIndex, groupId) ∈ knownGroupIds then
      .error (.statusResponse s!"Duplicate GroupId {groupId} for FabricIndex {fabricIndex}"
        .constraintError)
    else if ¬ entry.endpoints.Nodup then
      .error (.statusResponse
        s!"Duplicate endpoint IDs in GroupId {groupId} for FabricIndex {fabricIndex}"
        .constraintError)
    else checkGroupTable ((fabricIndex, groupId) :: knownGroupIds) entries

/-- The lists that an operation changed are checked. -/
def validate (before : ClusterState) : Except GroupError Unit :=
  match (if state.groupKeyMap = before.groupKeyMap then .ok () else state.validateGroupKeyMap) with
  | .error error => .error error
  | .ok () =>
    if state.groupTable = before.groupTable then .ok () else checkGroupTable [] state.groupTable

end ClusterState

/-! ### Operations -/

namespace Server

variable (s : Server) (fabricIndex : Nat)

def updateGroups (f : FabricGroups → FabricGroups) : Server :=
  let updated := { s.fabric fabricIndex with groups := f (s.fabric fabricIndex).groups }
  { s with fabric := update s.fabric fabricIndex updated }

def groupKeyMapOf : List GroupKeyMapEntry :=
  s.state.groupKeyMap.filter (·.fabricIndex == fabricIndex)

def groupTableOf : List GroupInfo :=
  s.state.groupTable.filter (·.fabricIndex == fabricIndex)

def groupKeySetsOf : List StoredKeySet :=
  s.state.groupKeySets.filter (·.fabricIndex == fabricIndex)

def restoreGroupKeyMap : Server :=
  s.updateGroups fabricIndex
    (·.setGroupKeyIdMap ((s.groupKeyMapOf fabricIndex).map GroupKeyMapEntry.mapping))

/-- `#updateGroupKeyMap`, for a remote actor of a fabric or a local actor. The latter passes over
the fabrics that have no entry. -/
def updateGroupKeyMap : Option Nat → Server
  | some fabricIndex => s.restoreGroupKeyMap fabricIndex
  | none =>
    let restored (fabricIndex : Nat) : FabricObject :=
      if fabricIndex ∈ s.fabrics ∧ s.groupKeyMapOf fabricIndex ≠ [] then
        (s.restoreGroupKeyMap fabricIndex).fabric fabricIndex
      else s.fabric fabricIndex
    { s with fabric := restored }

/-- The end of an operation. What it persisted is rolled back if a check fails. The operational
groups follow the group key map once it is committed. -/
def commit (actor : Option Nat) (before : Server) : Server :=
  match s.state.validate before.state with
  | .error _ => { s with state := before.state }
  | .ok () =>
    if s.state.groupKeyMap = before.state.groupKeyMap then s else s.updateGroupKeyMap actor

/-- The stored key set is replaced, or added unless there are too many. -/
def storeKeySet (entry : StoredKeySet) : Except GroupError (List StoredKeySet) :=
  let fabricIndex := entry.fabricIndex
  let maximum := s.state.maxGroupKeysPerFabric
  let isEntry (other : StoredKeySet) : Bool :=
    other.fabricIndex == fabricIndex && other.groupKeySetId == entry.groupKeySetId
  if s.state.groupKeySets.any isEntry then
    .ok (EntryMap.updateFirst isEntry (fun _ => entry) s.state.groupKeySets)
  else if maximum ≤ (s.groupKeySetsOf fabricIndex).length + 1 then
    .error (.statusResponse
      s!"Too many group key sets for fabric {fabricIndex}, maximum is {maximum}" .resourceExhausted)
  else .ok (s.state.groupKeySets ++ [entry])

/-- `setFromGroupKeySet`, with the keys derived. -/
def setFromGroupKeySet (keySet : OperationalKeySet) : Server :=
  s.updateGroups fabricIndex (fun groups =>
    groups.setKeySet keySet (groups.keySet keySet.groupKeySetId))

def keySetWrite (groupKeySet : GroupKeySet) : Except GroupError Server :=
  match groupKeySet.refusal with
  | some message => .error (.statusResponse message .invalidCommand)
  | none =>
    match s.storeKeySet ⟨groupKeySet.disableSlots, fabricIndex⟩,
        groupKeySet.disableSlots.derive (s.fabric fabricIndex).derivation with
    | .error error, _ => .error error
    | .ok _, none => .error (.matterFlow "EpochKey0 must be set")
    | .ok groupKeySets, some keySet =>
      .ok ({ s with state.groupKeySets := groupKeySets }.setFromGroupKeySet fabricIndex keySet)

def keySetRemove (fabricIndex groupKeySetId : Nat) : Except GroupError Server :=
  let isEntry (entry : StoredKeySet) : Bool :=
    entry.fabricIndex == fabricIndex && entry.groupKeySetId == groupKeySetId
  if groupKeySetId = 0 then
    .error (.statusResponse s!"GroupKeySet {groupKeySetId} cannot be removed" .invalidCommand)
  else if ¬ s.state.groupKeySets.any isEntry then
    .error (.statusResponse s!"GroupKeySet {groupKeySetId} not found" .notFound)
  else
    let groupKeySets := s.state.groupKeySets.eraseP isEntry
    let groupKeyMap := s.state.groupKeyMap.filter (fun entry =>
      entry.fabricIndex ≠ fabricIndex || entry.groupKeySetId ≠ groupKeySetId)
    .ok ({ s with state := { s.state with groupKeySets, groupKeyMap } }.updateGroups fabricIndex
      (·.removeGroupKeySet groupKeySetId))

def keySetReadAllIndices : List Nat :=
  0 :: (s.groupKeySetsOf fabricIndex).map (·.groupKeySetId)

def addEndpointForGroup (fabricIndex groupId endpointId : Nat) (groupName : String) :
    Except GroupError Server :=
  let maximum := s.state.maxGroupsPerFabric
  let isEntry (entry : GroupInfo) : Bool :=
    entry.fabricIndex == fabricIndex && entry.groupId == groupId
  match s.state.groupTable.find? isEntry with
  | some entry =>
    if endpointId ∈ entry.endpoints then
      let groupTable := EntryMap.updateFirst isEntry
        (fun entry => { entry with groupName }) s.state.groupTable
      .ok { s with state.groupTable := groupTable }
    else
      let endpoints := entry.endpoints ++ [endpointId]
      let groupTable := EntryMap.updateFirst isEntry
        (fun entry => { entry with endpoints, groupName }) s.state.groupTable
      .ok ({ s with state.groupTable := groupTable }.updateGroups fabricIndex
        (·.setEndpoints groupId endpoints))
  | none =>
    if maximum ≤ (s.groupTableOf fabricIndex).length then
      .error (.statusResponse s!"Too many groups for fabric {fabricIndex}, maximum is {maximum}"
        .resourceExhausted)
    else
      let groupTable := s.state.groupTable ++ [⟨groupId, [endpointId], groupName, fabricIndex⟩]
      .ok ({ s with state.groupTable := groupTable }.updateGroups fabricIndex
        (·.setEndpoints groupId [endpointId]))

end Server

/-! ### Removing an endpoint -/

/-- What happens to the operational endpoints of a group: they are deleted, or they become the
managed list of an entry of the group table, which is known by the index of the entry. -/
inductive EndpointUpdate
  | delete
  | entry (index : Nat)

/-- The loop of `removeEndpoint`. -/
structure Removal where
  groupTable : List GroupInfo
  updates : Nat → Option EndpointUpdate
  existing : Bool

namespace Removal

variable (fabricIndex endpointId : Nat) (groupId : Option Nat)

/-- The endpoint is in the group of the entry, and is to be removed from it. -/
def concerns (entry : GroupInfo) : Bool :=
  entry.fabricIndex == fabricIndex && groupId.all (· == entry.groupId) &&
    entry.endpoints.contains endpointId

def step (r : Removal) (i : Nat) : Removal :=
  match r.groupTable[i]? with
  | none => r
  | some entry =>
    if !concerns fabricIndex endpointId groupId entry then r
    else if entry.endpoints = [endpointId] then
      { groupTable := r.groupTable.eraseIdx i
        updates := update r.updates entry.groupId (some .delete)
        existing := true }
    else
      { groupTable := r.groupTable.set i
          { entry with endpoints := entry.endpoints.filter (· != endpointId) }
        updates := update r.updates entry.groupId (some (.entry i))
        existing := true }

def loop : Nat → Removal → Removal
  | 0, r => r
  | i + 1, r => loop i (r.step fabricIndex endpointId groupId i)

/-- The operational endpoints when the transaction closes. A managed list that has no entry any
more is empty. -/
def endpoints (r : Removal) (before : Nat → Option (List Nat)) (groupId : Nat) :
    Option (List Nat) :=
  match r.updates groupId with
  | none => before groupId
  | some .delete => none
  | some (.entry i) => some ((r.groupTable[i]?).elim [] (·.endpoints))

end Removal

namespace Server

variable (s : Server)

/-- `removeEndpoint`, from a group or from all groups. -/
def removeEndpoint (fabricIndex endpointId : Nat) (groupId : Option Nat) : Bool × Server :=
  let r := Removal.loop fabricIndex endpointId groupId s.state.groupTable.length
    ⟨s.state.groupTable, fun _ => none, false⟩
  (r.existing, { s with state.groupTable := r.groupTable }.updateGroups fabricIndex
    (fun groups => { groups with endpoints := r.endpoints groups.endpoints }))

/-! ### Rebuilding the operational groups -/

/-- Sets stored key sets on their fabrics, up to one whose keys cannot be derived. -/
def setStoredKeySets (s : Server) : List StoredKeySet → Bool × Server
  | [] => (true, s)
  | entry :: entries =>
    match entry.derive (s.fabric entry.fabricIndex).derivation with
    | none => (false, s)
    | some keySet => (s.setFromGroupKeySet entry.fabricIndex keySet).setStoredKeySets entries

/-- Sets the endpoints of the entries of the group table on their fabrics. -/
def setStoredEndpoints (entries : List GroupInfo) : Server :=
  entries.foldl (fun s entry =>
    s.updateGroups entry.fabricIndex (·.setEndpoints entry.groupId entry.endpoints)) s

def handleFabricUpdate (fabricIndex : Nat) : Server :=
  if s.state.groupKeySets = [] then s
  else
    match s.setStoredKeySets (s.groupKeySetsOf fabricIndex) with
    | (false, s) => s
    | (true, s) =>
      let s := if s.state.groupKeyMap = [] then s else s.restoreGroupKeyMap fabricIndex
      if s.state.groupTable = [] then s
      else (s.updateGroups fabricIndex (fun groups =>
        { groups with endpoints := fun _ => none })).setStoredEndpoints (s.groupTableOf fabricIndex)

/-- The key sets of the fabrics that exist, fabric by fabric. -/
def knownKeySets : List StoredKeySet :=
  let known := s.state.groupKeySets.filter (fun entry => s.fabrics.contains entry.fabricIndex)
  (known.map (·.fabricIndex)).eraseDups.flatMap (fun fabricIndex =>
    known.filter (·.fabricIndex == fabricIndex))

/-- `#online`, after the fabrics have been loaded. -/
def online : Server :=
  let groupKeySets := s.state.groupKeySets.filter (fun entry =>
    s.fabrics.contains entry.fabricIndex)
  match { s with state.groupKeySets := groupKeySets }.setStoredKeySets s.knownKeySets with
  | (false, s) => s
  | (true, s) =>
    let s := if s.state.groupKeyMap = [] then s else s.updateGroupKeyMap none
    s.setStoredEndpoints (s.state.groupTable.filter (fun entry =>
      s.fabrics.contains entry.fabricIndex))

def restart : Server :=
  { s with fabric := fun fabricIndex => (s.fabric fabricIndex).toFabricIdentity.create }.online

/-- `replaceFabric`, with the reaction to it. -/
def replaceFabric (fabricIndex : Nat) (identity : FabricIdentity) : Server :=
  { s with
    fabric := update s.fabric fabricIndex identity.create }.handleFabricUpdate fabricIndex

end Server

/-! ### Runs -/

inductive GroupOperation
  | keySetWrite (fabricIndex : Nat) (groupKeySet : GroupKeySet)
  | keySetRemove (fabricIndex groupKeySetId : Nat)
  /-- A write by a remote actor of a fabric, or by a local one. -/
  | writeGroupKeyMap (actor : Option Nat) (groupKeyMap : List GroupKeyMapEntry)
  /-- AddGroup has refused the group 0. -/
  | addEndpointForGroup (fabricIndex : Nat) (groupId : Nat) (endpointId : Nat) (groupName : String)
  | removeEndpoint (fabricIndex endpointId : Nat) (groupId : Option Nat)
  /-- A new fabric object, or one that was persisted. -/
  | replaceFabric (fabricIndex : Nat) (identity : FabricIdentity)
  | persistFabric (fabricIndex : Nat)
  | restart

namespace Server

def new (fabrics : List Nat) (identity : Nat → FabricIdentity)
    (maxGroupKeysPerFabric maxGroupsPerFabric : Nat) : Server where
  state := ⟨[], [], [], maxGroupKeysPerFabric, maxGroupsPerFabric⟩
  fabrics := fabrics
  fabric fabricIndex := (identity fabricIndex).create

variable (s : Server)

/-- A remote actor writes its own entries only. -/
def writes (groupKeyMap : List GroupKeyMapEntry) : Option Nat → Bool
  | none => true
  | some fabricIndex =>
    s.fabrics.contains fabricIndex &&
      groupKeyMap.filter (·.fabricIndex != fabricIndex) ==
        s.state.groupKeyMap.filter (·.fabricIndex != fabricIndex)

/-- An operation of a remote actor, which is undone if it fails. -/
def invoke (fabricIndex : Nat) (result : Except GroupError Server) : Option Server :=
  if fabricIndex ∈ s.fabrics then
    some (match result with
      | .error _ => s
      | .ok after => after.commit (some fabricIndex) s)
  else none

def step : GroupOperation → Option Server
  | .keySetWrite fabricIndex groupKeySet =>
    s.invoke fabricIndex (s.keySetWrite fabricIndex groupKeySet)
  | .keySetRemove fabricIndex groupKeySetId =>
    s.invoke fabricIndex (s.keySetRemove fabricIndex groupKeySetId)
  | .writeGroupKeyMap actor groupKeyMap =>
    if s.writes groupKeyMap actor then
      some ({ s with state.groupKeyMap := groupKeyMap }.commit actor s)
    else none
  | .addEndpointForGroup fabricIndex groupId endpointId groupName =>
    if groupId < 1 then none
    else s.invoke fabricIndex (s.addEndpointForGroup fabricIndex groupId endpointId groupName)
  | .removeEndpoint fabricIndex endpointId groupId =>
    s.invoke fabricIndex (.ok (s.removeEndpoint fabricIndex endpointId groupId).2)
  | .replaceFabric fabricIndex identity =>
    if fabricIndex ∈ s.fabrics then some (s.replaceFabric fabricIndex identity) else none
  | .persistFabric fabricIndex =>
    if fabricIndex ∈ s.fabrics then some (s.handleFabricUpdate fabricIndex) else none
  | .restart => some s.restart

end Server

end MatterJs.Groups
