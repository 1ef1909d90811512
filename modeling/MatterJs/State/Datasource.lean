import MatterJs.Foundation.InsertionMap
import MatterJs.Foundation.TransitionSystem

/-!
# Datasources

`DatasourceImpl` with the `RootReference`s of its sessions: the canonical values, the clone that a
writing session works on, the two phases of its commit, and the changes that a mirrored node
reports. A struct is an object with an identity; its fields have values. Fields that the state
serves from accessors, and the observers of changes, are not part of it.
-/
namespace MatterJs.State

open InsertionMap

/-- `isDeepEqual` on what the fields may hold, whatever it takes for equal. -/
class DeepEqual (V : Type) where
  isDeepEqual : Option V → Option V → Bool

export DeepEqual (isDeepEqual)

variable {Name V : Type} [DecidableEq Name] [DecidableEq V] [DeepEqual V]

/-- The fields of a struct. A field may be present and undefined. -/
abbrev Fields (Name V : Type) := List (Name × Option V)

variable (fields : Fields Name V)

/-- The value of a field, or undefined. -/
def Fields.at (name : Name) : Option V :=
  (get fields name).join

def Fields.names : List Name := fields.map Prod.fst

def Fields.spread (fields changes : Fields Name V) : Fields Name V :=
  changes.foldl (fun fields entry => set fields entry.1 entry.2) fields

structure Struct (Name V : Type) where
  /-- The identity of the object. -/
  id : Nat
  fields : Fields Name V

def Struct.at (values : Struct Name V) (name : Name) : Option V := values.fields.at name

structure CommitChanges (Name V : Type) where
  stored : Option (Fields Name V)
  changeList : List Name

/-- Where the transaction of a session stands. -/
inductive Phase
  | shared
  | exclusive
  /-- Phase one is done or under way. -/
  | committing
  deriving DecidableEq

structure RootReference (Name V : Type) where
  values : Struct Name V
  baseValues : Option (Struct Name V) := none
  stagedFeaturesKey : Bool := false
  changes : Option (CommitChanges Name V) := none
  expired : Bool := false
  /-- The isolation of the transaction is `snapshot`. -/
  snapshot : Bool := false
  phase : Phase := .shared

/-- What a datasource is made with. -/
structure Options (Name V : Type) where
  /-- The store mutates values on its own, as it mirrors a remote node. -/
  mirrorsRemote : Bool
  /-- The fields are keyed by id. -/
  keyedById : Bool
  memberNames : List Name
  storeFields : Name → Bool
  isMetadataKey : Name → Bool
  featuresName : Name
  featuresKey : Option V

structure Observation (Name V : Type) where
  version : Nat
  /-- How often the version had been advanced. -/
  advances : Nat
  fields : Fields Name V

structure Datasource (Name V : Type) where
  version : Nat
  values : Struct Name V
  featuresKeyPersisted : Bool := false
  /-- The references, those that have expired with them. -/
  references : List (RootReference Name V) := []
  nextId : Nat
  /-- What was handed to the store, in order. -/
  sets : List (Fields Name V) := []
  /-- How often the version was advanced. -/
  advances : Nat := 0
  /-- What was reported from outside, over the values of the start or of the last commit. -/
  reported : Fields Name V
  /-- What readers have seen. -/
  observed : List (Observation Name V) := []

inductive DatasourceEvent (Name V : Type)
  /-- A session gets its reference. -/
  | reference (snapshot : Bool)
  /-- A session assigns a field. -/
  | assign (r : Nat) (name : Name) (value : Option V)
  /-- Phase one of a commit starts. -/
  | commit1 (r : Nat)
  /-- Phase one has ended, for all participants; the transaction goes on to phase two or is rolled
  back. -/
  | settle (r : Nat) (ok : Bool)
  | rollback (r : Nat)
  /-- The transaction of a session is closed. -/
  | close (r : Nat)
  | integrateExternalChange (potentialChanges : Fields Name V) (version : Nat)
  | advanceVersion
  /-- A session that does not write reads the version and the values. -/
  | observe (r : Nat)

namespace Datasource

def initial (version : Nat) (fields : Fields Name V) : Datasource Name V where
  version := version
  values := { id := 0, fields }
  nextId := 1
  reported := fields

variable (o : Options Name V) (d : Datasource Name V) (r : Nat) (ref : RootReference Name V)

def advanceVersion : Datasource Name V :=
  if o.mirrorsRemote then d
  else
    { d with
      version := if 0xffffffff < d.version + 1 then 0 else d.version + 1
      advances := d.advances + 1 }

def setReference : Datasource Name V :=
  { d with references := d.references.set r ref }

/-- The setter of `values`. The sessions that have the old object get the new one; those with a
snapshot are not among them. -/
def setValues (newValues : Struct Name V) : Datasource Name V :=
  { d with
    values := newValues
    references := d.references.map (fun ref =>
      if !ref.snapshot && !ref.expired && ref.values.id == d.values.id then
        { ref with values := newValues }
      else ref) }

/-! ### Writing -/

/-- The keys that a clone has. -/
def cloneKeys (old : Fields Name V) : List Name :=
  if o.keyedById then old.names else o.memberNames ++ old.names

def clone (old : Fields Name V) : Fields Name V :=
  (cloneKeys o old).foldl (fun fields key => set fields key (old.at key)) []

/-- The transaction of a reference may join or go on writing: it has the lock, or nobody has it. -/
def mayWrite : Bool :=
  !ref.expired && !ref.snapshot && ref.phase != .committing &&
    (List.range d.references.length).all (fun i => i == r ||
      d.references[i]?.all (·.phase == .shared))

/-- `change`, with an assignment as its mutator. -/
def change (name : Name) (value : Option V) : Datasource Name V :=
  let (ref, nextId) :=
    if ref.values.id = d.values.id then
      ({ ref with
          baseValues := some ref.values
          values := { id := d.nextId, fields := clone o ref.values.fields } }, d.nextId + 1)
    else (ref, d.nextId)
  let values := { ref.values with fields := set ref.values.fields name value }
  { d with nextId }.setReference r { ref with values, phase := .exclusive }

/-! ### Committing -/

def wasWrittenHere (name : Name) (newval : Option V) : Bool :=
  match ref.baseValues with
  | none => true
  | some base => base.at name != newval && !isDeepEqual newval (base.at name)

def computePostCommitChanges : Option (CommitChanges Name V) :=
  if d.values.id = ref.values.id then none
  else
    let changed := ref.values.fields.names.filter (fun name =>
      d.values.at name != ref.values.at name &&
        !isDeepEqual (ref.values.at name) (d.values.at name))
    if changed = [] then none
    else
      let written := changed.filter
        (fun name => o.storeFields name && wasWrittenHere ref name (ref.values.at name))
      some {
        changeList := changed
        stored :=
          if written = [] then none
          else some (written.map (fun name => (name, ref.values.at name))) }

/-- The values that go to the store. -/
def commit1Stored (stored : Fields Name V) : Fields Name V × Bool :=
  match o.featuresKey with
  | some featuresKey =>
    if !o.mirrorsRemote && !d.featuresKeyPersisted then
      (set stored o.featuresName (some featuresKey), true)
    else (stored, false)
  | none => (stored, false)

def commit1 : Datasource Name V :=
  let ref := { ref with
    stagedFeaturesKey := false, phase := .committing
    changes := computePostCommitChanges o d ref }
  match ref.changes with
  | none => d.setReference r ref
  | some changes =>
    let d := advanceVersion o d
    match changes.stored with
    | none => d.setReference r ref
    | some stored =>
      let (stored, staged) := commit1Stored o d stored
      { d with sets := d.sets ++ [stored] }.setReference r
        { ref with
          changes := some { changes with stored := some stored }
          stagedFeaturesKey := staged }

def adoptConcurrentChanges : Struct Name V :=
  match ref.baseValues with
  | none => ref.values
  | some base =>
    if d.values.id = base.id then ref.values
    else
      { ref.values with
        fields := d.values.fields.names.foldl (fun fields name =>
          if fields.at name ≠ d.values.at name ∧ ¬ wasWrittenHere ref name (fields.at name) then
            set fields name (d.values.at name)
          else fields) ref.values.fields }

def commit2 : Datasource Name V :=
  match ref.changes with
  | none => d
  | some _ =>
    let values := adoptConcurrentChanges d ref
    { d with
      featuresKeyPersisted := d.featuresKeyPersisted || ref.stagedFeaturesKey
      reported := values.fields }.setReference r { ref with values, stagedFeaturesKey := false }
      |>.setValues values

def rollbackReference : RootReference Name V :=
  { ref with values := d.values, baseValues := none }

/-- The listener of `onShared`, as the transaction returns to shared. -/
def onShared : Datasource Name V :=
  match d.references[r]? with
  | some ref =>
    let ref := if ref.values.id = d.values.id then ref else rollbackReference d ref
    d.setReference r { ref with phase := .shared }
  | none => d

def rollback : Datasource Name V :=
  (d.setReference r (rollbackReference d ref)).onShared r

/-! ### Changes from outside -/

def integrateExternalChange (potentialChanges : Fields Name V) (version : Nat) :
    Datasource Name V :=
  let reports := potentialChanges.filter (fun entry => !o.isMetadataKey entry.1)
  let changes := reports.filter (fun entry => !isDeepEqual (d.values.at entry.1) entry.2)
  let d := { d with version, reported := d.reported.spread reports }
  if changes = [] then d
  else
    { d with nextId := d.nextId + 1 }.setValues
      { id := d.nextId, fields := d.values.fields.spread changes }

/-! ### Steps -/

def observe : Datasource Name V :=
  { d with
    observed := d.observed ++
      [{ version := d.version, advances := d.advances, fields := ref.values.fields }] }

/-- An assignment that throws changes nothing. -/
def step : DatasourceEvent Name V → Option (Datasource Name V)
  | .reference snapshot =>
    some { d with references := d.references ++ [{ values := d.values, snapshot }] }
  | .assign r name value =>
    d.references[r]?.map (fun ref =>
      if d.mayWrite r ref then d.change o r ref name value else d)
  | .commit1 r =>
    d.references[r]?.bind (fun ref =>
      if ref.phase = .exclusive then some (commit1 o d r ref) else none)
  | .settle r ok =>
    d.references[r]?.bind (fun ref =>
      if ref.phase = .committing then
        some (if ok then (d.commit2 r ref).onShared r else d.rollback r ref)
      else none)
  | .rollback r =>
    d.references[r]?.bind (fun ref =>
      if ref.phase = .exclusive then some (d.rollback r ref) else none)
  | .close r =>
    d.references[r]?.bind (fun ref =>
      if ref.phase = .shared then some (d.setReference r { ref with expired := true }) else none)
  | .integrateExternalChange potentialChanges version =>
    -- The changes come as a map, which has a key once.
    if o.mirrorsRemote ∧ potentialChanges.names.Nodup then
      some (integrateExternalChange o d potentialChanges version)
    else none
  | .advanceVersion => some (advanceVersion o d)
  | .observe r =>
    d.references[r]?.bind (fun ref =>
      if ref.phase = .shared && !ref.expired then some (d.observe ref) else none)

end Datasource

end MatterJs.State
