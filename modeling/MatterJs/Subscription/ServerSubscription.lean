import Mathlib.Algebra.Order.Ring.Nat
import MatterJs.Foundation.TransitionSystem

/-!
# The server's side of a subscription

The initial report reads the requested paths one endpoint after another. Changes that come in
meanwhile are collected, and go out in updates once the subscription is active. Timers, events and
loggers are left out but for the timers' effect on when an update is sent.
-/
namespace MatterJs.Subscription

structure AttributePath where
  endpointId : Nat
  clusterId : Nat
  attributeId : Nat
  deriving DecidableEq

/-- The key of a cluster, `endpointId-clusterId` in the source. -/
abbrev ClusterKey := Nat × Nat

def AttributePath.cluster (path : AttributePath) : ClusterKey :=
  (path.endpointId, path.clusterId)

/-- One attribute of the request, with the kind of path that selects it. -/
structure ReadPath where
  path : AttributePath
  wildcard : Bool

/-- The arguments that `attrsChanged` will be emitted with, but for the version. -/
structure Announcement where
  endpointId : Nat
  clusterId : Nat
  changedAttrs : List Nat
  deriving DecidableEq

namespace Announcement

variable (change : Announcement)

def cluster : ClusterKey :=
  (change.endpointId, change.clusterId)

def paths : List AttributePath :=
  change.changedAttrs.map (fun id => ⟨change.endpointId, change.clusterId, id⟩)

end Announcement

/-- The node as the subscription sees it. A change of a cluster advances the version in phase one of
its transaction, replaces the values in phase two and is announced after the commit. -/
structure Node (V : Type) where
  values : AttributePath → V
  first : ClusterKey → Nat
  advances : ClusterKey → Nat
  changing : ClusterKey → Bool
  announcing : List Announcement

structure AttributeValue (V : Type) where
  path : AttributePath
  value : V
  version : Nat

/-- The update in `#sendUpdateMessage`: what its payload has still to read, and has read. -/
structure Sending (V : Type) where
  attributeFilter : Option (List AttributePath)
  onlyWithData : Bool
  unread : List (List ReadPath)
  values : List (AttributeValue V)

structure ServerSubscription (V : Type) where
  /-- The attributes the request selects, grouped by endpoint in the order they are read. -/
  request : List (List ReadPath)
  dataVersionFilters : ClusterKey → Option Nat
  isClosed : Bool
  isTerminated : Bool
  outstandingAttributeUpdates : Option (List AttributePath)
  sendUpdatesActivated : Bool
  seededClusterDetails : Option (ClusterKey → Option Nat)
  sendNextUpdateImmediately : Bool
  sendUpdateErrorCounter : Nat
  currentUpdatePromise : Bool
  sendDelayTimer : Bool
  sending : Option (Sending V)
  /-- What the initial report has still to read. -/
  unread : List (List ReadPath)
  /-- The reports of one endpoint that are read and not passed on. -/
  chunk : List (AttributeValue V)

structure Server (V : Type) where
  node : Node V
  subscription : ServerSubscription V
  /-- The last value included in a report, as far as the initial report has come. -/
  reported : AttributePath → Option V

/-- How sending one update ends. -/
inductive SendOutcome
  | sent
  /-- The peer answers with a status; `invalid` for `InvalidSubscription` and `Failure`. -/
  | status (invalid : Bool)
  /-- Any other error; `communication` for the four kinds of errors that end the subscription. -/
  | failed (communication : Bool)
  deriving DecidableEq

inductive SubscriptionEvent (V : Type)
  | startChange (cluster : ClusterKey)
  | cancelChange (cluster : ClusterKey)
  | replaceValues (cluster : ClusterKey) (changes : List (Nat × V))
  | announce (index : Nat) (early : Bool)
  | readChunk
  | passReport
  | activate (sessionClosing : Bool)
  | updateTimer (early : Bool)
  | sendDelayTimer
  | readUpdate
  | settle (outcome : SendOutcome)
  | settled
  | close (flush : Bool)
  | handlePeerCancel

variable {V : Type}

namespace Node

variable (node : Node V)

/-- Versions are 32 bits wide and start anywhere. -/
def version (cluster : ClusterKey) : Nat :=
  (node.first cluster + node.advances cluster) % 2 ^ 32

def startChange (cluster : ClusterKey) : Option (Node V) :=
  if node.changing cluster then none
  else some { node with
    advances := Function.update node.advances cluster (node.advances cluster + 1)
    changing := Function.update node.changing cluster true }

/-- A rollback leaves the version advanced. -/
def cancelChange (cluster : ClusterKey) : Option (Node V) :=
  if node.changing cluster then
    some { node with changing := Function.update node.changing cluster false }
  else none

def setValues (cluster : ClusterKey) (values : AttributePath → V) :
    List (Nat × V) → AttributePath → V
  | [] => values
  | (id, value) :: changes =>
    setValues cluster (Function.update values ⟨cluster.1, cluster.2, id⟩ value) changes

def replaceValues (cluster : ClusterKey) (changes : List (Nat × V)) :
    Option (Node V) :=
  if node.changing cluster then
    some { node with
      values := setValues cluster node.values changes
      changing := Function.update node.changing cluster false
      announcing := node.announcing ++ [⟨cluster.1, cluster.2, changes.map Prod.fst⟩] }
  else none

end Node

section Reading

variable (node : Node V) (versions : ClusterKey → Option Nat)

/-- `AttributeReadResponse.process`: a concrete path at the filtered version is dropped at once. -/
def process (request : List (List ReadPath)) :
    List (List ReadPath) :=
  request.map (fun paths => paths.filter (fun path =>
    path.wildcard || versions path.path.cluster != some (node.version path.path.cluster)))

/-- A wildcard path is dropped when its turn comes, if the cluster has the filtered version then. -/
def filteredByVersion (path : ReadPath) :
    Bool :=
  path.wildcard && versions path.path.cluster == some (node.version path.path.cluster)

def addValue (path : ReadPath) : AttributeValue V :=
  ⟨path.path, node.values path.path, node.version path.path.cluster⟩

/-- The attributes of one endpoint, read at one moment. -/
def readEndpoint (paths : List ReadPath) :
    List (AttributeValue V) :=
  (paths.filter (fun path => !filteredByVersion node versions path)).map (addValue node)

/-- `AttributeSubscriptionResponse` reads what is in its filter only. -/
def readDirty (dirty : List AttributePath)
    (paths : List ReadPath) : List (AttributeValue V) :=
  readEndpoint node versions (paths.filter (fun path => dirty.contains path.path))

end Reading

namespace ServerSubscription

variable (s : ServerSubscription V)

def addOutstandingAttributes (changedAttrs : List AttributePath) : ServerSubscription V :=
  if changedAttrs.isEmpty then s
  else
    { s with
      outstandingAttributeUpdates :=
        some (changedAttrs.foldl (·.insert ·)
          (s.outstandingAttributeUpdates.getD [])) }

variable (node : Node V) (onlyWithData : Bool)

/-- The head of the loop of `#sendUpdate`. -/
def nextUpdate : ServerSubscription V :=
  let attributeFilter := s.outstandingAttributeUpdates
  let taken := { s with outstandingAttributeUpdates := none }
  if onlyWithData && attributeFilter.isNone then { taken with sending := none }
  else
    { taken with
      sending := some {
        attributeFilter
        onlyWithData
        unread :=
          match attributeFilter with
          | none => []
          | some _ => process node s.dataVersionFilters s.request
        values := [] } }

def triggerSendUpdate : ServerSubscription V :=
  if s.currentUpdatePromise then { s with sendNextUpdateImmediately := true }
  else nextUpdate { s with currentUpdatePromise := true } node onlyWithData

/-- `early` when the time since the last update is below the floor. -/
def prepareDataUpdate (early : Bool) : ServerSubscription V :=
  if s.sendDelayTimer || s.isClosed || !s.sendUpdatesActivated || early then s
  else { s with sendDelayTimer := true }

def handleClusterStateChanges (change : Announcement) (version : Nat) (early : Bool) :
    ServerSubscription V :=
  if s.isClosed || change.changedAttrs.isEmpty then s
  else if s.seededClusterDetails.any (fun seeded => seeded change.cluster == some version) then s
  else prepareDataUpdate (s.addOutstandingAttributes change.paths) early

def activate (sessionClosing : Bool) : ServerSubscription V :=
  if sessionClosing then { s with isClosed := true }
  else
    let active := { s with
      dataVersionFilters := fun _ => none
      sendUpdatesActivated := true
      seededClusterDetails := none }
    if s.outstandingAttributeUpdates.isSome then triggerSendUpdate active node false else active

/-- The end of the loop of `#sendUpdate`. -/
def goOn : ServerSubscription V :=
  if s.sendNextUpdateImmediately then
    nextUpdate { s with sendNextUpdateImmediately := false } node true
  else { s with sending := none }

def closeFromUpdate : ServerSubscription V :=
  { s with isClosed := true, sendUpdatesActivated := false, sendDelayTimer := false }

/-- What `#sendUpdate` does once `#sendUpdateMessage` has returned or thrown. -/
def sendUpdate (update : Sending V) : SendOutcome → ServerSubscription V
  | .sent => goOn { s with sendUpdateErrorCounter := 0 } node
  | .status invalid =>
    goOn { closeFromUpdate s with
      isTerminated := s.isTerminated || invalid
      sendUpdateErrorCounter := 0 } node
  | .failed communication =>
    if s.isClosed || s.isTerminated then { s with sending := none }
    else
      let failed := { s with sendUpdateErrorCounter := s.sendUpdateErrorCounter + 1 }
      if failed.sendUpdateErrorCounter ≤ 2 then
        goOn (failed.addOutstandingAttributes (update.attributeFilter.getD [])) node
      else
        let givenUp := { failed with sendNextUpdateImmediately := false, sending := none }
        if communication then closeFromUpdate { givenUp with isTerminated := true }
        -- the error is thrown on to the logger
        else givenUp

def close (flush : Bool) : ServerSubscription V :=
  if s.isClosed then s
  else
    let closed := closeFromUpdate s
    if flush && s.outstandingAttributeUpdates.isSome then triggerSendUpdate closed node true
    else closed

/-- Reads the next endpoint for the update being sent. -/
def readUpdate (update : Sending V) (paths : List ReadPath)
    (rest : List (List ReadPath)) : ServerSubscription V :=
  { s with
    sending := some { update with
      unread := rest
      values := readDirty node s.dataVersionFilters (update.attributeFilter.getD []) paths ++
        update.values } }

end ServerSubscription

/-- What a report adds to what the subscriber has. -/
def report (reported : AttributePath → Option V) (values : List (AttributeValue V)) :
    AttributePath → Option V :=
  fun path => match values.find? (·.path == path) with
    | some value => some value.value
    | none => reported path

namespace Server

open ServerSubscription

/-- `sendInitialReport` begins: the change handlers are registered and the paths are validated. The
subscriber has the values of a version it filters for. -/
def initial (node : Node V) (request : List (List ReadPath))
    (versions : ClusterKey → Option Nat) : Server V where
  node := node
  subscription := {
    request
    dataVersionFilters := versions
    isClosed := false
    isTerminated := false
    outstandingAttributeUpdates := none
    sendUpdatesActivated := false
    seededClusterDetails := some (fun _ => none)
    sendNextUpdateImmediately := false
    sendUpdateErrorCounter := 0
    currentUpdatePromise := false
    sendDelayTimer := false
    sending := none
    unread := process node versions request
    chunk := [] }
  reported := fun path =>
    if versions path.cluster = some (node.version path.cluster) then some (node.values path)
    else none

/-- The initial report reads one endpoint. A path filtered by version is one the subscriber has. -/
def readChunk (s : Server V) (paths : List ReadPath) (rest : List (List ReadPath)) : Server V where
  node := s.node
  subscription := { s.subscription with
    unread := rest
    chunk := readEndpoint s.node s.subscription.dataVersionFilters paths }
  reported := report s.reported (paths.map (addValue s.node))

def passReport (s : ServerSubscription V) (value : AttributeValue V)
    (rest : List (AttributeValue V)) : ServerSubscription V :=
  { s with
    chunk := rest
    seededClusterDetails := s.seededClusterDetails.map (fun seeded =>
      Function.update seeded value.path.cluster (some value.version)) }

def step (s : Server V) : SubscriptionEvent V → Option (Server V)
  | .startChange cluster => (s.node.startChange cluster).map (fun node => { s with node })
  | .cancelChange cluster => (s.node.cancelChange cluster).map (fun node => { s with node })
  | .replaceValues cluster changes =>
    (s.node.replaceValues cluster changes).map (fun node => { s with node })
  | .announce index early =>
    s.node.announcing[index]?.map (fun change => { s with
      node := { s.node with announcing := s.node.announcing.eraseIdx index }
      subscription :=
        handleClusterStateChanges s.subscription change (s.node.version change.cluster) early })
  | .readChunk =>
    match s.subscription.chunk, s.subscription.unread with
    | [], paths :: rest => some (s.readChunk paths rest)
    | _, _ => none
  | .passReport =>
    match s.subscription.chunk with
    | value :: rest => some { s with subscription := passReport s.subscription value rest }
    | [] => none
  | .activate sessionClosing =>
    if s.subscription.isClosed || s.subscription.sendUpdatesActivated ||
        !s.subscription.chunk.isEmpty || !s.subscription.unread.isEmpty then none
    else some { s with subscription := s.subscription.activate s.node sessionClosing }
  | .updateTimer early => some { s with subscription := s.subscription.prepareDataUpdate early }
  | .sendDelayTimer =>
    if s.subscription.sendDelayTimer then
      some { s with
        subscription :=
          triggerSendUpdate { s.subscription with sendDelayTimer := false } s.node false }
    else none
  | .readUpdate =>
    match s.subscription.sending with
    | some update =>
      match update.unread with
      | paths :: rest =>
        some { s with subscription := s.subscription.readUpdate s.node update paths rest }
      | [] => none
    | none => none
  | .settle outcome =>
    match s.subscription.sending with
    | some update =>
      -- a report is sent once its payload has been read to the end
      if outcome = .sent ∧ update.unread ≠ [] then none
      else some { s with
        subscription := s.subscription.sendUpdate s.node update outcome
        reported := if outcome = .sent then report s.reported update.values else s.reported }
    | none => none
  | .settled =>
    if s.subscription.currentUpdatePromise && s.subscription.sending.isNone then
      some { s with subscription := { s.subscription with currentUpdatePromise := false } }
    else none
  | .close flush => some { s with subscription := s.subscription.close s.node flush }
  | .handlePeerCancel =>
    some { s with
      subscription :=
        ServerSubscription.close { s.subscription with isTerminated := true } s.node false }

end Server

end MatterJs.Subscription
