import MatterJs.Foundation.KeyIndex

/-! Fabrics, the builder that makes them from certificates, and the table that holds them. -/
namespace MatterJs.Credentials

/-! ### Certificates -/

/-- A trusted root certificate. -/
structure Rcac where
  publicKey : Nat
  fabricId : Option Nat
deriving DecidableEq

/-- An intermediate certificate. -/
structure Icac where
  publicKey : Nat
  fabricId : Option Nat
deriving DecidableEq

/-- A node's operational certificate. -/
structure Noc where
  nodeId : Nat
  fabricId : Nat
  publicKey : Nat
deriving DecidableEq

/-- What the cryptography answers. The verifications are all checks of a certificate but those of
the ids in its subject, the signature among them. -/
structure Crypto where
  publicKey : Nat → Nat
  globalFabricId : Nat → Nat → Nat
  verifyRcac : Rcac → Bool
  verifyIcac : Icac → Rcac → Bool
  verifyNoc : Noc → Rcac → Option Icac → Bool

def isOperationalNodeId (id : Nat) : Bool :=
  0x0000000000000001 ≤ id && id ≤ 0xFFFFFFEFFFFFFFFF

def isCaseAuthenticatedTag (id : Nat) : Bool :=
  0xFFFFFFFD00000000 ≤ id && id ≤ 0xFFFFFFFDFFFFFFFF

/-- Why a command fails. -/
inductive Failure
  | certificate
  | publicKey
  | fabricConflict (message : String)
  | tableFull (message : String)
  | invalidAdminSubject
  | fabricNotFound (message : String)
  | flow (message : String)
  | internal (message : String)
  | constraint (message : String)
  | invalidCommand (message : String)
  | failsafeRequired

def Noc.verify (crypto : Crypto) (noc : Noc) (root : Rcac) (ica : Option Icac) : Bool :=
  isOperationalNodeId noc.nodeId &&
    noc.fabricId != 0 &&
    root.fabricId.all (· == noc.fabricId) &&
    (ica.bind Icac.fabricId).all (· == noc.fabricId) &&
    crypto.verifyNoc noc root ica

/-! ### Fabrics -/

/-- A fabric. Each builder has a key pair of its own, which tells its fabric from every other. -/
structure Fabric where
  fabricIndex : Nat
  fabricId : Nat
  nodeId : Nat
  rootNodeId : Nat
  globalId : Nat
  rootVendorId : Nat
  rootCert : Rcac
  identityProtectionKey : Nat
  intermediateCACert : Option Icac
  operationalCert : Noc
  keyPair : Nat
  vidVerificationStatement : Option Nat
  vvsc : Option Nat
  label : String
deriving DecidableEq

def Fabric.rootPublicKey (fabric : Fabric) : Nat := fabric.rootCert.publicKey

structure FabricBuilder where
  keyPair : Nat
  rootVendorId : Option Nat := none
  rootCert : Option Rcac := none
  intermediateCACert : Option Icac := none
  operationalCert : Option Noc := none
  fabricId : Option Nat := none
  nodeId : Option Nat := none
  rootNodeId : Option Nat := none
  identityProtectionKey : Option Nat := none
  vidVerificationStatement : Option Nat := none
  vvsc : Option Nat := none
  fabricIndex : Option Nat := none
  label : String := ""

namespace FabricBuilder

variable (crypto : Crypto) (builder : FabricBuilder)

def setRootCert (rootCert : Rcac) : Except Failure FabricBuilder :=
  if crypto.verifyRcac rootCert then .ok { builder with rootCert := some rootCert }
  else .error .certificate

def setOperationalCert (noc : Noc) (icac : Option Icac) : Except Failure FabricBuilder :=
  if noc.publicKey ≠ crypto.publicKey builder.keyPair then .error .publicKey
  else
    match builder.rootCert with
    | none => .error (.flow "Root certificate needs to be set first")
    | some root =>
      if icac.all (crypto.verifyIcac · root) && noc.verify crypto root icac then
        .ok { builder with
          operationalCert := some noc
          intermediateCACert := icac
          fabricId := some noc.fabricId
          nodeId := some noc.nodeId }
      else .error .certificate

def initializeFromFabricForUpdate (fabric : Fabric) : FabricBuilder :=
  { builder with
    rootVendorId := some fabric.rootVendorId
    rootNodeId := some fabric.rootNodeId
    identityProtectionKey := some fabric.identityProtectionKey
    rootCert := some fabric.rootCert
    vidVerificationStatement := fabric.vidVerificationStatement
    vvsc := fabric.vvsc
    label := fabric.label }

def globalId : Except Failure Nat :=
  match builder.fabricId, builder.rootCert with
  | some fabricId, some root => .ok (crypto.globalFabricId fabricId root.publicKey)
  | _, _ => .error (.flow "Node Operational Data needs to be set first.")

def build (fabricIndex : Nat) : Except Failure (FabricBuilder × Fabric) :=
  if builder.fabricIndex.isSome then .error (.internal "FabricBuilder can only be built once")
  else
    match builder.rootNodeId, builder.rootVendorId, builder.rootCert,
      builder.identityProtectionKey, builder.operationalCert, builder.fabricId, builder.nodeId with
    | none, _, _, _, _, _, _ => .error (.internal "rootNodeId needs to be set")
    | _, none, _, _, _, _, _ => .error (.internal "vendorId needs to be set")
    | _, _, none, _, _, _, _ => .error (.internal "rootCert needs to be set")
    | _, _, _, none, _, _, _ => .error (.internal "identityProtectionKey needs to be set")
    | some rootNodeId, some rootVendorId, some root, some key, some noc, some fabricId,
      some nodeId =>
      .ok ({ builder with fabricIndex := some fabricIndex },
        { fabricIndex, fabricId, nodeId, rootNodeId
          globalId := crypto.globalFabricId fabricId root.publicKey
          rootVendorId
          rootCert := root
          identityProtectionKey := key
          intermediateCACert := builder.intermediateCACert
          operationalCert := noc
          keyPair := builder.keyPair
          vidVerificationStatement := builder.vidVerificationStatement
          vvsc := builder.vvsc
          label := builder.label })
    | _, _, _, _, _, _, _ => .error (.internal "operationalCert needs to be set")

end FabricBuilder

/-! ### The table -/

/-- A `BasicSet` of fabrics with its indices. -/
structure FabricSet where
  entries : List Fabric
  byFabricIndex : Nat → Option Fabric
  byGlobalId : Nat → Option Fabric

namespace FabricSet

def empty : FabricSet := ⟨[], fun _ => none, fun _ => none⟩

def add (set : FabricSet) (fabric : Fabric) : FabricSet :=
  if fabric ∈ set.entries then set
  else
    ⟨set.entries ++ [fabric], KeyIndex.add Fabric.fabricIndex set.byFabricIndex fabric,
      KeyIndex.add Fabric.globalId set.byGlobalId fabric⟩

def delete (set : FabricSet) (fabric : Fabric) : FabricSet :=
  if fabric ∈ set.entries then
    ⟨set.entries.erase fabric, KeyIndex.delete Fabric.fabricIndex set.byFabricIndex fabric,
      KeyIndex.delete Fabric.globalId set.byGlobalId fabric⟩
  else set

end FabricSet

structure FabricManager where
  fabrics : FabricSet
  nextFabricIndex : Nat

namespace FabricManager

variable (manager : FabricManager)

def new : FabricManager := ⟨.empty, 1⟩

/-- The loop of `allocateFabricIndex`, with the turns that are left. -/
def allocate (manager : FabricManager) : Nat → Option Nat × FabricManager
  | 0 => (none, manager)
  | turns + 1 =>
    let fabricIndex := manager.nextFabricIndex
    let next := if fabricIndex + 1 > 254 then 1 else fabricIndex + 1
    let manager := { manager with nextFabricIndex := next }
    if (manager.fabrics.byFabricIndex fabricIndex).isNone then (some fabricIndex, manager)
    else manager.allocate turns

def allocateFabricIndex : Option Nat × FabricManager :=
  manager.allocate 254

variable (fabric : Fabric)

/-- Puts a fabric in the place of the one at its index. -/
def addOrUpdateFabricEntry : FabricManager :=
  match manager.fabrics.byFabricIndex fabric.fabricIndex with
  | none => { manager with fabrics := manager.fabrics.add fabric }
  | some existing => { manager with fabrics := (manager.fabrics.delete existing).add fabric }

def addFabric : Except Failure FabricManager :=
  let fabricIndex := fabric.fabricIndex
  if (manager.fabrics.byFabricIndex fabricIndex).isSome then
    .error (.flow s!"Fabric with index {fabricIndex} already exists.")
  else .ok (manager.addOrUpdateFabricEntry fabric)

def replaceFabric : Except Failure FabricManager :=
  let fabricIndex := fabric.fabricIndex
  match manager.fabrics.byFabricIndex fabricIndex with
  | none => .error (.fabricNotFound s!"Fabric index #{fabricIndex} does not exist")
  | some existing =>
    if existing = fabric then .ok manager else .ok (manager.addOrUpdateFabricEntry fabric)

def deleteFabric : FabricManager :=
  { manager with fabrics := manager.fabrics.delete fabric }

end FabricManager

end MatterJs.Credentials
