import MatterJs.Foundation.Generator
import MatterJs.Interaction.AttributeValue

/-!
# Reading a data report

The attribute reports of a data report are turned into values and statuses. Adjacent
entries of one attribute are put together, a compressed path is completed by the last
full one, and a list that may go on in the next report is left over for it.
-/
namespace MatterJs.Interaction

open MatterJs.Tlv

/-- `TlvAttributeReport`. -/
structure AttributeReport where
  attributeStatus : Option AttributeStatus := none
  attributeData : Option AttributeData := none

variable (data : AttributeData)

def AttributeReport.ofData : AttributeReport := ⟨none, some data⟩

/-- The attributes of a `DataReport` that was received. -/
structure InputReport where
  attributeReports : Option (List AttributeReport)
  moreChunkedMessages : Bool := false

structure ResolvedAttributePath where
  nodeId : Option Nat
  endpointId : Nat
  clusterId : Nat
  attributeId : Nat
  deriving DecidableEq

/-- The last path that was given in full, with the version beside it. -/
structure LastPath where
  path : ResolvedAttributePath
  dataVersion : Option Nat

structure AttributeDataGroup where
  path : ResolvedAttributePath
  dataVersion : Option Nat
  entries : List AttributeData

/-- What the reader of a report is given. -/
inductive Report
  | attributeValue (path : ResolvedAttributePath) (value : Value) (version : Nat)
  | attributeStatus (path : ResolvedAttributePath) (status : Nat) (clusterStatus : Option Nat)

variable (path : AttributePath)

def AttributePath.compressed : Bool :=
  path.enableTagCompression.getD false

/-- The ids of a path, written into it. -/
def AttributePath.fill (resolved : ResolvedAttributePath) : AttributePath :=
  { path with
    nodeId := resolved.nodeId
    endpointId := some resolved.endpointId
    clusterId := some resolved.clusterId
    attributeId := some resolved.attributeId }

variable (lastPath : Option LastPath)

/-- The path is completed in place: it is returned with the ids it stands for. -/
def resolvePath :
    Except TlvError (AttributePath × ResolvedAttributePath) :=
  if path.compressed then
    match lastPath with
    | none => .error (.unexpectedData "Tag compression enabled, but no previous path")
    | some last =>
      let resolved : ResolvedAttributePath := {
        nodeId := path.nodeId <|> last.path.nodeId
        endpointId := path.endpointId.getD last.path.endpointId
        clusterId := path.clusterId.getD last.path.clusterId
        attributeId := path.attributeId.getD last.path.attributeId }
      .ok (path.fill resolved, resolved)
  else
    match path.endpointId, path.clusterId, path.attributeId with
    | some endpointId, some clusterId, some attributeId =>
      .ok (path, ⟨path.nodeId, endpointId, clusterId, attributeId⟩)
    | _, _, _ => .error (.unexpectedData "Tag compression disabled, but path is incomplete")

def samePath (a b : ResolvedAttributePath) : Bool :=
  a.nodeId == b.nodeId && a.endpointId == b.endpointId && a.clusterId == b.clusterId &&
    a.attributeId == b.attributeId

/-- A list action, or an array that could still grow. -/
def mayContinueInNextReport : Bool :=
  data.path.listIndex.isSome ||
    match data.data with
    | first :: _ :: _ => first.typeLength == .array
    | _ => false

/-- A compressed entry without a version has that of the last path. -/
def inheritVersion : Option Nat :=
  if data.path.compressed then data.dataVersion <|> lastPath.bind LastPath.dataVersion
  else data.dataVersion

section

-- the schema of an attribute of the standard data model
variable (attributeSchemaOf : Nat → Nat → Option Schema)

/-- An attribute that cannot be decoded is skipped; other errors are thrown. -/
def decodeAttributeGroup (group : AttributeDataGroup) : Except TlvError (Option Report) :=
  let value := match attributeSchemaOf group.path.clusterId group.path.attributeId with
    | none => decodeUnknownAttributeValue group.entries
    | some schema => decodeAttributeValueWithSchema ⟨true⟩ schema group.entries
  match value with
  | .ok value => .ok (some (.attributeValue group.path value (group.dataVersion.getD 0)))
  | .error (.unexpectedData _) => .ok none
  | .error e => .error e

def flushDataGroup (group : AttributeDataGroup) : Gen TlvError Report Unit := do
  match ← Gen.lift (decodeAttributeGroup attributeSchemaOf group) with
  | some value => Gen.yield value
  | none => pure ()

def buildAttrStatus (path : ResolvedAttributePath) (src : AttributeStatus) : Report :=
  .attributeStatus path src.status.status src.status.clusterStatus

/-- The variables of the loop of `emitAttributes`. -/
structure EmitState where
  lastPath : Option LastPath
  group : Option AttributeDataGroup

variable (group : Option AttributeDataGroup) (resolved : ResolvedAttributePath)

/-- The group an entry is added to: one of another path is flushed before. -/
def flushOther :
    Gen TlvError Report (Option AttributeDataGroup) :=
  match group with
  | none => pure none
  | some group =>
    if samePath group.path resolved then pure (some group)
    else do
      flushDataGroup attributeSchemaOf group
      pure none

def addEntry (data : AttributeData) : AttributeDataGroup :=
  match group with
  | none => ⟨resolved, data.dataVersion, [data]⟩
  | some group =>
    { group with
      entries := group.entries ++ [data]
      dataVersion := group.dataVersion <|> data.dataVersion }

def flushOpen : Gen TlvError Report Unit :=
  match group with
  | none => pure ()
  | some group => flushDataGroup attributeSchemaOf group

def accept (error : TlvError) : Gen TlvError Report Unit :=
  match error with
  | .unexpectedData _ => pure ()
  | error => Gen.lift (.error error)

/-- One pass of the loop of `emitAttributes`. An entry whose path cannot be resolved is
skipped; what flushing a group throws is no error of its data. -/
def emitEntry (s : EmitState) (entry : AttributeReport) : Gen TlvError Report EmitState :=
  match entry.attributeData, entry.attributeStatus with
  | some data, _ =>
    match resolvePath data.path s.lastPath with
    | .error error => do
      accept error
      return s
    | .ok (path, resolved) => do
      let data : AttributeData := ⟨inheritVersion data s.lastPath, path, data.data⟩
      let lastPath := if path.compressed then s.lastPath else some ⟨resolved, data.dataVersion⟩
      let group ← flushOther attributeSchemaOf s.group resolved
      return ⟨lastPath, some (addEntry group resolved data)⟩
  | none, some statusSrc =>
    match resolvePath statusSrc.path s.lastPath with
    | .error error => do
      accept error
      return s
    | .ok (path, resolved) => do
      let lastPath := if path.compressed then s.lastPath
        else some ⟨resolved, s.lastPath.bind LastPath.dataVersion⟩
      flushOpen attributeSchemaOf s.group
      Gen.yield (buildAttrStatus resolved statusSrc)
      return ⟨lastPath, none⟩
  | none, none => return s

variable (input : InputReport)

/-- What the loop leaves open is left over for the next report or flushed. -/
def finishReport (hasLeftover : Bool) (group : Option AttributeDataGroup) :
    Gen TlvError Report (List AttributeReport) :=
  match group with
  | none => pure []
  | some group =>
    if input.moreChunkedMessages && hasLeftover &&
        group.entries.getLast?.any mayContinueInNextReport then
      pure (group.entries.map .ofData)
    else do
      flushDataGroup attributeSchemaOf group
      pure []

/-- `emitAttributes`, returning what it leaves in the array of leftover reports. -/
def emitAttributes (leftover : Option (List AttributeReport)) :
    Gen TlvError Report (Option (List AttributeReport)) := do
  let attrs := leftover.getD [] ++ input.attributeReports.getD []
  if attrs.isEmpty then return leftover
  else
    let s ← attrs.foldlM (emitEntry attributeSchemaOf) ⟨none, none⟩
    let left ← finishReport attributeSchemaOf input leftover.isSome s.group
    return leftover.map (fun _ => left)

/-- The attributes of the messages of one report, read one after the other with one array of
leftover reports: all but the last say that more are to come. -/
def inputChunks : List AttributeReport → List (List AttributeReport) → Gen TlvError Report Unit
  | _, [] => pure ()
  | leftover, [message] => do
    let _ ← emitAttributes attributeSchemaOf ⟨some message, false⟩ (some leftover)
    return ()
  | leftover, message :: messages => do
    let left ← emitAttributes attributeSchemaOf ⟨some message, true⟩ (some leftover)
    inputChunks (left.getD []) messages

end

end MatterJs.Interaction
