import MatterJs.Action.Protocol
import Mathlib.Logic.Function.Basic

/-!
# Writing attributes

First what the response builder decides about an entry of a write request: whether it is refused
with a status, and which attributes it goes on to write. Then the writes themselves. Each one is a
transaction, so that one that fails leaves the attributes as they were.
-/
namespace MatterJs.Action

inductive ListIndex
  | absent
  | null
  | at (index : Nat)
  deriving DecidableEq

structure AttributePath where
  nodeId : Option Nat
  endpointId : Option Nat
  clusterId : Option Nat
  attributeId : Option Nat
  listIndex : ListIndex
  /-- The flags as a bitmap, if the path has the field. -/
  wildcardPathFlags : Option Nat
  deriving DecidableEq

/-- An attribute of the node. -/
structure AttributeLocation where
  endpointId : Nat
  clusterId : Nat
  attributeId : Nat
  deriving DecidableEq

namespace AttributePath

/-- The attribute a path names, unless it is a wildcard path. -/
def concrete (path : AttributePath) : Option AttributeLocation :=
  match path.endpointId, path.clusterId, path.attributeId with
  | some endpointId, some clusterId, some attributeId => some ⟨endpointId, clusterId, attributeId⟩
  | _, _, _ => none

end AttributePath

/-! ### The decisions -/

section Decisions

variable (node : Node) (session : Session)

def attributeAt (location : AttributeLocation) : Option AttributeType :=
  (node.cluster location.endpointId location.clusterId).bind
    (·.attributeType location.attributeId)

/-- The checks of `#writeConcrete` after the attribute is known to exist. -/
def refuseWrite (type : AttributeType) (location : AttributeLocation) (version : Option Nat)
    (clusterVersion : Nat) : Option Status :=
  (refuseIf (!type.limits.writable) .unsupportedWrite).or <|
  (authorizeRemote session type.limits.writeLevel location.endpointId location.clusterId).or <|
  (refuseIf (session.hasRemoteActor && type.limits.timed && !session.timed)
    .needsTimedInteraction).or <|
  (refuseIf (session.hasRemoteActor && type.limits.fabricScoped && session.fabric == 0)
    .unsupportedAccess).or <|
  refuseIf (version.any (· ≠ clusterVersion)) .dataVersionMismatch

/-- The checks of `#writeConcrete`, with the version the entry asks for and the cluster's. The
limits that the code looks up for an attribute that does not exist are not used by any of them. -/
def writeConcrete (nodeId : Option Nat) (location : AttributeLocation) (version : Option Nat)
    (clusterVersion : Nat) : Except Status AttributeType :=
  match refusePath node session .view nodeId location.endpointId location.clusterId,
    attributeAt node location with
  | some status, _ => .error status
  | none, none => .error .unsupportedAttribute
  | none, some type =>
    match refuseWrite session type location version clusterVersion with
    | some status => .error status
    | none => .ok type

/-- `#writeAttributeForWildcard`: whether it goes on to write the attribute. -/
def writeAttributeForWildcard (endpointId clusterId : Nat) (type : AttributeType) : Bool :=
  type.limits.writable &&
    (!session.hasRemoteActor ||
      session.authorityAt type.limits.writeLevel endpointId clusterId == .granted &&
        !(type.limits.timed && !session.timed))

/-- `#writeEndpointForWildcard` and `#writeClusterForWildcard`: the attribute to write, if any. -/
def writeEndpointForWildcard (endpoint : Endpoint) (path : AttributePath) :
    Except Status (Option (AttributeLocation × AttributeType)) :=
  match path.clusterId, path.attributeId with
  | some clusterId, some attributeId =>
    .ok ((endpoint.cluster clusterId).bind (fun cluster =>
      ((cluster.attributeType attributeId).filter
        (writeAttributeForWildcard session endpoint.id cluster.id)).map
        (fun type => (⟨endpoint.id, cluster.id, type.id⟩, type))))
  | _, _ => .error .invalidAction

/-- The endpoints that a wildcard path of a write or an invoke covers. -/
def groupEndpoints : List Endpoint :=
  match session.group with
  | some endpoints => node.endpoints.filter (fun endpoint => endpoints.contains endpoint.id)
  | none => node.endpoints

/-- `#processWildcard`: the endpoints to go through. -/
def wildcardEndpoints (path : AttributePath) : Except Status (List Endpoint) :=
  if path.nodeId.any (· ≠ node.nodeId) then .ok []
  else
    match path.endpointId with
    | none => .ok (groupEndpoints node session)
    | some endpointId =>
      if session.group.isSome then .error .invalidAction
      else .ok (node.endpoint endpointId).toList

variable {node session} {n v : Option Nat} {l : AttributeLocation}
  {c : Nat} {type : AttributeType}

theorem writeConcrete_eq_ok : writeConcrete node session n l v c = .ok type ↔
      refusePath node session .view n l.endpointId l.clusterId = none ∧
      attributeAt node l = some type ∧ refuseWrite session type l v c = none := by
  unfold writeConcrete
  split
  · next hrf => simp [hrf]
  · next hf => simp [hf]
  · next found hp hf =>
    simp only [hp, hf, Option.some.injEq, true_and]
    split
    · next s hr =>
      refine ⟨by simp, ?_⟩
      rintro ⟨rfl, hn⟩
      simp [hn] at hr
    · next hr =>
      constructor
      · intro h
        cases h
        exact ⟨rfl, hr⟩
      · rintro ⟨rfl, _⟩
        rfl

theorem refuseWrite_ne_success : refuseWrite session type l v c ≠ some .success := by
  refine or_ne_success (refuseIf_ne_success (by decide)) ?_
  refine or_ne_success authorize_ne_success ?_
  refine or_ne_success (refuseIf_ne_success (by decide)) ?_
  exact or_ne_success (refuseIf_ne_success (by decide)) (refuseIf_ne_success (by decide))

theorem writeConcrete_refusal {s : Status} (h : writeConcrete node session n l v c = .error s) :
    s ≠ .success := by
  rintro rfl
  unfold writeConcrete at h
  split at h
  · next hr => exact refusePath_ne_success (Except.error.inj h ▸ hr)
  · cases h
  · split at h
    · next hf => exact refuseWrite_ne_success (Except.error.inj h ▸ hf)
    · cases h

end Decisions

/-! ### The writes -/

/-- What a write throws: an error with a status, any other error, or that the exchange has ended. -/
inductive Failure
  | response (code : Status) (clusterCode : Option Nat)
  | crash
  | closed

/-- An attribute's value. The entries of a list are kept with the fabric they belong to, which is
zero for those of a list that is not fabric-scoped. -/
inductive Value (α : Type)
  | undefined
  | scalar (value : α)
  | list (entries : List (Nat × α))
  deriving DecidableEq

structure AttributeState (α : Type) where
  values : AttributeLocation → Value α
  versions : Nat → Nat → Nat

inductive Change (α : Type)
  | assign (value : α)
  | replaceAll (items : List α)
  | add (item : α)
  deriving DecidableEq

/-- The schema of the attributes and the logic of their clusters. The refusals are those of access
control, validation and the observers of a commit. -/
structure Behavior (δ α : Type) where
  decodeValue : AttributeLocation → δ → Except Failure α
  decodeArray : AttributeLocation → δ → Except Failure (List α)
  decodeElement : AttributeLocation → δ → Except Failure α
  refuses : AttributeState α → AttributeLocation → Value α → Option Failure

/-- A committed write, with the value it replaced. -/
structure Commit (α : Type) where
  location : AttributeLocation
  change : Change α
  oldValue : Value α
  deriving DecidableEq

structure AttributeStatus where
  path : AttributePath
  status : Status
  clusterStatus : Option Nat
  deriving DecidableEq

/-- The attributes, and the writes committed since the interaction started. -/
structure Store (α : Type) where
  state : AttributeState α
  commits : List (Commit α)

/-- Writing changes the store also where it ends in an error. -/
abbrev WriteM (α β : Type) :=
  ExceptT Failure (StateM (Store α)) β

structure AttributeData (δ : Type) where
  path : AttributePath
  data : δ
  dataVersion : Option Nat

def asStatus (path : AttributePath) (status : Status) (clusterStatus : Option Nat) :
    AttributeStatus :=
  if clusterStatus.isSome && status != .success then ⟨path, .failure, clusterStatus⟩
  else ⟨path, status, clusterStatus⟩

section Writes

variable {δ α : Type} [DecidableEq α] (behavior : Behavior δ α) (node : Node) (session : Session)

/-- Assignment of a fabric-scoped list: the entries of the fabric are overwritten in place, those
missing appended and those left over removed. -/
def mergeScoped (fabric : Nat) : List (Nat × α) → List α → List (Nat × α)
  | [], items => items.map (fabric, ·)
  | entry :: entries, items =>
    if entry.1 = fabric then
      match items with
      | [] => mergeScoped fabric entries []
      | item :: items => (fabric, item) :: mergeScoped fabric entries items
    else entry :: mergeScoped fabric entries items

variable (type : AttributeType)

/-- The fabric that an entry of the list is kept with. -/
def entryFabric : Nat :=
  if type.limits.fabricScoped then session.fabric else 0

/-- The entries of a stored list, with those of a fabric-scoped list limited to the session's. -/
def content : Value α → List α
  | .list entries =>
    if type.limits.fabricScoped then
      (entries.filter (·.1 = session.fabric)).map Prod.snd
    else entries.map Prod.snd
  | _ => []

/-- The value after a change. There is nothing to push to where there is no list. -/
def applyChange (value : Value α) : Change α → Except Failure (Value α)
  | .assign value => .ok (.scalar value)
  | .replaceAll items =>
    match value, type.limits.fabricScoped with
    | .list entries, true => .ok (.list (mergeScoped session.fabric entries items))
    | _, _ => .ok (.list (items.map (entryFabric session type, ·)))
  | .add item =>
    match value with
    | .list entries => .ok (.list (entries ++ [(entryFabric session type, item)]))
    | _ => .error .crash

variable (state : AttributeState α) (location : AttributeLocation)

/-- The change that an entry of a request asks for. -/
def decodeChange (listIndex : ListIndex)
    (data : δ) : Except Failure (Change α) :=
  match listIndex with
  | .absent =>
    if type.isArray then (behavior.decodeArray location data).map .replaceAll
    else (behavior.decodeValue location data).map .assign
  | .null =>
    if type.isArray then (behavior.decodeElement location data).map .add
    else .error (.response .invalidAction none)
  | .at _ => .error (.response .invalidAction none)

def attempt (listIndex : ListIndex) (data : δ) : Except Failure (Change α × Value α) :=
  match decodeChange behavior type location listIndex data with
  | .error failure => .error failure
  | .ok change =>
    match applyChange session type (state.values location) change with
    | .error failure => .error failure
    | .ok value =>
      match behavior.refuses state location value with
      | some failure => .error failure
      | none => .ok (change, value)

/-- A commit that changes a value advances the version of its cluster. -/
def AttributeState.write (value : Value α) : AttributeState α where
  values := Function.update state.values location value
  versions := fun endpointId clusterId =>
    let version := state.versions endpointId clusterId
    if endpointId = location.endpointId && clusterId = location.clusterId &&
        state.values location != value then
      if 0xffffffff < version + 1 then 0 else version + 1
    else version

def Store.commit (store : Store α) (location : AttributeLocation) (change : Change α)
    (value : Value α) : Store α where
  state := store.state.write location value
  commits := store.commits ++ [⟨location, change, store.state.values location⟩]

def writeValue (path : AttributePath)
    (data : δ) : WriteM α AttributeStatus :=
  match path.listIndex with
  | .at _ => throw (.response .invalidAction none)
  | listIndex => do
    let store ← get
    match attempt behavior session type store.state location listIndex data with
    | .ok (change, value) =>
      set (store.commit location change value)
      pure (asStatus path .success none)
    | .error (.response code clusterCode) => pure (asStatus path code clusterCode)
    | .error failure => throw failure

def writeEndpoints (entry : AttributeData δ) : List Endpoint → WriteM α (List AttributeStatus)
  | [] => pure []
  | endpoint :: endpoints =>
    match writeEndpointForWildcard session endpoint entry.path with
    | .error code => throw (.response code none)
    | .ok none => writeEndpoints entry endpoints
    | .ok (some (location, type)) => do
      let path := { entry.path with
        endpointId := some location.endpointId
        clusterId := some location.clusterId
        attributeId := some location.attributeId }
      let status ← writeValue behavior session type location path entry.data
      let statuses ← writeEndpoints entry endpoints
      pure (status :: statuses)

def processEntry (entry : AttributeData δ) : WriteM α (List AttributeStatus) :=
  if entry.path.wildcardPathFlags.isSome then throw (.response .invalidAction none)
  else
    match entry.path.concrete with
    | none =>
      match wildcardEndpoints node session entry.path with
      | .error code => throw (.response code none)
      | .ok endpoints => writeEndpoints behavior session entry endpoints
    | some location =>
      if session.group.isSome then throw (.response .invalidAction none)
      else do
        let store ← get
        match writeConcrete node session entry.path.nodeId location entry.dataVersion
          (store.state.versions location.endpointId location.clusterId) with
        | .error status => pure [asStatus entry.path status none]
        | .ok type =>
          let status ← writeValue behavior session type location entry.path entry.data
          pure [status]

def process : List (AttributeData δ) → WriteM α (List AttributeStatus)
  | [] => pure []
  | entry :: entries => do
    let statuses ← processEntry behavior node session entry
    let others ← process entries
    pure (statuses ++ others)

end Writes

end MatterJs.Action
