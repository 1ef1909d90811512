import MatterJs.Credentials.FabricTable
import MatterJs.Foundation.TransitionSystem

/-! The commands that change the fabric table, each run to its end. -/
namespace MatterJs.Credentials

/-- The session that a command comes in on, with the index of its fabric. -/
structure Session where
  id : Nat
  isPase : Bool
  fabricIndex : Option Nat

/-- What a failsafe context knows of the fabric it is to add or update. -/
structure Context where
  associatedFabric : Option Fabric
  csrSessionId : Option Nat
  forUpdateNoc : Option Bool
  builder : FabricBuilder
  rootCertSet : Bool

namespace Context

def new (associatedFabric : Option Fabric) (keyPair : Nat) : Context where
  associatedFabric := associatedFabric
  csrSessionId := none
  forUpdateNoc := none
  builder := { keyPair }
  rootCertSet := false

def fabricIndex (context : Context) : Option Nat := context.builder.fabricIndex

def command (context : Context) : String :=
  if context.forUpdateNoc = some true then "UpdateNOC" else "AddNOC"

end Context

structure Node where
  fabrics : FabricManager
  failsafe : Option Context
  /-- The next key pair that is created. -/
  nextKeyPair : Nat

def Node.new : Node := ⟨.new, none, 0⟩

/-- `NodeOperationalCertStatus`. -/
inductive NocStatus
  | ok
  | invalidPublicKey
  | invalidNoc
  | missingCsr
  | tableFull
  | invalidAdminSubject
  | fabricConflict
  | invalidFabricIndex

inductive Response
  | success
  | noc (statusCode : NocStatus) (fabricIndex : Option Nat)
  | thrown (failure : Failure)

structure NocData where
  nocValue : Noc
  icacValue : Option Icac
  ipkValue : Nat
  caseAdminSubject : Nat
  adminVendorId : Nat

def mapNocErrors : Failure → Response
  | .fabricConflict _ => .noc .fabricConflict none
  | .tableFull _ => .noc .tableFull none
  | .certificate => .noc .invalidNoc none
  | .publicKey => .noc .invalidPublicKey none
  | .invalidAdminSubject => .noc .invalidAdminSubject none
  | failure => .thrown failure

def refuseIf (condition : Prop) [Decidable condition] (response : Response) : Option Response :=
  if condition then some response else none

section Commands

variable (crypto : Crypto) (supportedFabrics : Nat)

/-- A subject that is neither a node nor a tag is no tag that a version could be read from. -/
def validAdminSubject (subject : Nat) : Bool :=
  isOperationalNodeId subject || isCaseAuthenticatedTag subject

variable (context : Context) (fabrics : FabricManager)

/-- The end of `buildFabric`, from the allocation of the index on. -/
def addBuiltFabric :
    Except Failure Fabric × Context × FabricManager :=
  match fabrics.allocateFabricIndex with
  | (none, fabrics) =>
    (.error (.tableFull "No free fabric index available."), context, fabrics)
  | (some fabricIndex, fabrics) =>
    match context.builder.build crypto fabricIndex with
    | .error failure => (.error failure, context, fabrics)
    | .ok (builder, fabric) =>
      let context := { context with builder, associatedFabric := some fabric }
      match fabrics.addFabric fabric with
      | .error failure => (.error failure, context, fabrics)
      | .ok fabrics => (.ok fabric, context, fabrics)

def buildFabric (data : NocData) :
    Except Failure Fabric × Context × FabricManager :=
  if !validAdminSubject data.caseAdminSubject then
    (.error .invalidAdminSubject, context, fabrics)
  else
    match context.builder.setOperationalCert crypto data.nocValue data.icacValue with
    | .error failure => (.error failure, context, fabrics)
    | .ok builder =>
      match builder.globalId crypto with
      | .error failure => (.error failure, { context with builder }, fabrics)
      | .ok newGlobalId =>
        if (fabrics.fabrics.byGlobalId newGlobalId).isSome then
          let fabricId := data.nocValue.fabricId
          let nodeId := data.nocValue.nodeId
          (.error (.fabricConflict
            s!"Fabric with Id {fabricId} and Node Id {nodeId} already exists."),
            { context with builder }, fabrics)
        else
          let builder :=
            { builder with
              rootVendorId := some data.adminVendorId
              identityProtectionKey := some data.ipkValue
              rootNodeId := some data.caseAdminSubject }
          addBuiltFabric crypto { context with builder } fabrics

/-- The builder once an update of the fabric has begun. -/
def Context.forUpdate (fabric : Fabric) : Context :=
  { context with builder := context.builder.initializeFromFabricForUpdate fabric }

def buildUpdatedFabric (noc : Noc) (icac : Option Icac) :
    Except Failure Fabric × Context :=
  match context.associatedFabric with
  | none =>
    (.error (.flow "No fabric associated with failsafe context, but we prepare an Fabric update."),
      context)
  | some associated =>
    let context := context.forUpdate associated
    match context.builder.setOperationalCert crypto noc icac with
    | .error failure => (.error failure, context)
    | .ok builder =>
      match builder.build crypto associated.fabricIndex with
      | .error failure => (.error failure, { context with builder })
      | .ok (builder, fabric) => (.ok fabric, { context with builder })

namespace Node

variable (node : Node) (session : Session)

/-- ArmFailSafe without a context, on a session whose fabric is in the table. -/
def armFailSafe : Option Node :=
  if node.failsafe.isSome then none
  else
    match session.fabricIndex with
    | none =>
      some { node with
        failsafe := some (.new none node.nextKeyPair)
        nextKeyPair := node.nextKeyPair + 1 }
    | some fabricIndex =>
      (node.fabrics.fabrics.byFabricIndex fabricIndex).map (fun fabric =>
        { node with
          failsafe := some (.new (some fabric) node.nextKeyPair)
          nextKeyPair := node.nextKeyPair + 1 })

def addTrustedRootCertificate (rootCaCertificate : Rcac) : Response × Node :=
  match node.failsafe with
  | none => (.thrown .failsafeRequired, node)
  | some context =>
    if context.rootCertSet then
      (.thrown (.constraint "Trusted root certificate already added in this FailSafe context"),
        node)
    else if context.fabricIndex.isSome then
      let command := context.command
      (.thrown (.constraint s!"Cannot add trusted root certificates after {command}"), node)
    else
      match context.builder.setRootCert crypto rootCaCertificate with
      | .error _ => (.thrown (.invalidCommand "Error installing root certificate"), node)
      | .ok builder =>
        (.success, { node with failsafe := some { context with builder, rootCertSet := true } })

def csrRequest (isForUpdateNoc : Bool) : Response × Node :=
  if isForUpdateNoc && session.isPase then
    (.thrown (.invalidCommand "csrRequest for UpdateNoc received on a PASE session"), node)
  else
    match node.failsafe with
    | none => (.thrown .failsafeRequired, node)
    | some context =>
      if context.fabricIndex.isSome then
        let command := context.command
        (.thrown (.constraint s!"csrRequest received after {command} already invoked"), node)
      else if node.fabrics.fabrics.entries.any (·.keyPair == context.builder.keyPair) then
        (.thrown (.flow "Key pair already exists."), node)
      else
        (.success, { node with failsafe := some { context with
          csrSessionId := some session.id
          forUpdateNoc := some isForUpdateNoc } })

/-- The checks of `addNoc`, in their order. -/
def refuseAddNoc (context : Context) : Option Response :=
  let command := context.command
  (refuseIf context.fabricIndex.isSome
    (.thrown
      (.constraint s!"AddNoc is illegal after {command} in the same failsafe context"))).or <|
  (refuseIf context.builder.rootCert.isNone (.noc .invalidNoc none)).or <|
  (refuseIf (context.csrSessionId ≠ some session.id) (.noc .missingCsr none)).or <|
  (refuseIf (context.forUpdateNoc = some true) (.thrown (.constraint
    "AddNoc is illegal after CsrRequest for UpdateNOC in same failsafe context"))).or <|
  refuseIf (supportedFabrics ≤ node.fabrics.fabrics.entries.length) (.noc .tableFull none)

/-- AddNOC. What follows the installation of the fabric may fail, and then deletes it. -/
def addNoc (data : NocData) (completes : Bool) : Response × Node :=
  match node.failsafe with
  | none => (.thrown .failsafeRequired, node)
  | some context =>
    match node.refuseAddNoc supportedFabrics session context with
    | some response => (response, node)
    | none =>
      match buildFabric crypto context node.fabrics data with
      | (.error failure, context, fabrics) =>
        (mapNocErrors failure, { node with failsafe := some context, fabrics })
      | (.ok fabric, context, fabrics) =>
        if completes then
          (.noc .ok fabric.fabricIndex, { node with failsafe := some context, fabrics })
        else
          (.thrown (.flow "The fabric could not be given its access control entry"),
            { node with failsafe := some context, fabrics := fabrics.deleteFabric fabric })

/-- The checks of `updateNoc`, in their order. -/
def refuseUpdateNoc (context : Context) : Option Response :=
  let command := context.command
  (refuseIf context.fabricIndex.isSome
    (.thrown (.constraint s!"UpdateNoc is illegal after {command} in same failsafe context"))).or <|
  (refuseIf (context.forUpdateNoc = some false) (.thrown (.constraint
    "UpdateNoc is illegal after CsrRequest for AddNOC in same failsafe context"))).or <|
  (refuseIf context.rootCertSet (.noc .missingCsr none)).or <|
  (refuseIf (context.forUpdateNoc = none) (.noc .missingCsr none)).or <|
  (refuseIf session.fabricIndex.isNone (.thrown (.flow
    "Session needs to have an associated Fabric for fabric sensitive data handling."))).or <|
  refuseIf (session.fabricIndex ≠ context.associatedFabric.map Fabric.fabricIndex)
    (.thrown (.constraint "Fabric of this session and the failsafe context do not match"))

/-- UpdateNOC. Closing the sessions of the old fabric may fail, and then it is put back. -/
def updateNoc (noc : Noc) (icac : Option Icac) (completes : Bool) :
    Response × Node :=
  match node.failsafe with
  | none => (.thrown .failsafeRequired, node)
  | some context =>
    match refuseUpdateNoc session context with
    | some response => (response, node)
    | none =>
      match buildUpdatedFabric crypto context noc icac with
      | (.error failure, context) =>
        (mapNocErrors failure, { node with failsafe := some context })
      | (.ok updatedFabric, context) =>
        match node.fabrics.replaceFabric updatedFabric with
        | .error failure => (mapNocErrors failure, { node with failsafe := some context })
        | .ok fabrics =>
          if completes then
            (.noc .ok updatedFabric.fabricIndex, { node with failsafe := some context, fabrics })
          else
            let restored := context.associatedFabric.elim fabrics (fun oldFabric =>
              (fabrics.replaceFabric oldFabric).toOption.getD fabrics)
            (.thrown (.flow "The sessions of the fabric could not be closed"),
              { node with failsafe := some context, fabrics := restored })

/-- The deletion of an added fabric, which `rollback` tries twice. -/
def revoke (context : Context) (fabrics : FabricManager) : FabricManager :=
  context.associatedFabric.elim fabrics fabrics.deleteFabric

/-- `rollback`, as far as the fabrics are concerned. -/
def rollbackFabrics (context : Context) (fabrics : FabricManager) : FabricManager :=
  let revoked :=
    if context.fabricIndex.isSome ∧ context.forUpdateNoc ≠ some true then revoke context fabrics
    else fabrics
  let found := context.fabricIndex.any (fun fabricIndex =>
    (revoked.fabrics.byFabricIndex fabricIndex).isSome)
  if context.forUpdateNoc = some true then
    context.associatedFabric.elim revoked (fun fabric =>
      (revoked.replaceFabric fabric).toOption.getD revoked)
  else if found then revoke context revoked
  else revoked

/-- The context ends, by its rollback or by CommissioningComplete. -/
def rollback : Option Node :=
  node.failsafe.map (fun context =>
    { node with failsafe := none, fabrics := rollbackFabrics context node.fabrics })

def commissioningComplete : Option Node :=
  node.failsafe.map (fun _ => { node with failsafe := none })

def removeFabric (fabricIndex : Nat) : Response × Node :=
  match node.fabrics.fabrics.byFabricIndex fabricIndex with
  | none => (.noc .invalidFabricIndex none, node)
  | some fabric =>
    (.noc .ok fabricIndex, { node with fabrics := node.fabrics.deleteFabric fabric })

end Node

inductive Event
  | armFailSafe (session : Session)
  | addTrustedRootCertificate (rootCaCertificate : Rcac)
  | csrRequest (session : Session) (isForUpdateNoc : Bool)
  | addNoc (session : Session) (data : NocData) (completes : Bool)
  | updateNoc (session : Session) (noc : Noc) (icac : Option Icac) (completes : Bool)
  | commissioningComplete
  | rollback
  | removeFabric (fabricIndex : Nat)

def Node.step (node : Node) : Event → Option Node
  | .armFailSafe session => node.armFailSafe session
  | .addTrustedRootCertificate root => some (node.addTrustedRootCertificate crypto root).2
  | .csrRequest session isForUpdateNoc => some (node.csrRequest session isForUpdateNoc).2
  | .addNoc session data completes =>
    some (node.addNoc crypto supportedFabrics session data completes).2
  | .updateNoc session noc icac completes =>
    some (node.updateNoc crypto session noc icac completes).2
  | .commissioningComplete => node.commissioningComplete
  | .rollback => node.rollback
  | .removeFabric fabricIndex => some (node.removeFabric fabricIndex).2

end Commands

end MatterJs.Credentials
