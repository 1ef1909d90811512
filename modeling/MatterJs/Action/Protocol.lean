import Mathlib.Data.List.Nodup

/-!
# The node and the session as the response builders see them

A node is the table of its endpoints, clusters and cluster elements. What a session may do at a
location is given by the granted access levels.
-/
namespace MatterJs.Action

open List

inductive AccessLevel
  | view
  | proxyView
  | operate
  | manage
  | administer

inductive Authority
  | granted
  | unauthorized
  | restricted
  deriving DecidableEq

/-- The status codes the response builders use themselves, and others. -/
inductive Status
  | success
  | failure
  | invalidAction
  | unsupportedAccess
  | accessRestricted
  | unsupportedNode
  | unsupportedEndpoint
  | unsupportedCluster
  | unsupportedAttribute
  | unsupportedCommand
  | unsupportedRead
  | unsupportedWrite
  | needsTimedInteraction
  | invalidTransportType
  | dataVersionMismatch
  | busy
  | other (code : Nat)
  deriving DecidableEq

structure Limits where
  readable : Bool
  readLevel : AccessLevel
  writable : Bool
  writeLevel : AccessLevel
  fabricScoped : Bool
  fabricSensitive : Bool
  timed : Bool
  largeMessage : Bool

/-- An interaction session. The granted levels are those of `accessLevelsFor`, which grants with a
privilege all that it subsumes, and depend on the endpoint and the cluster. -/
structure Session where
  hasRemoteActor : Bool
  authorityAt : AccessLevel → Nat → Nat → Authority
  subsumesView : ∀ level endpoint cluster, authorityAt level endpoint cluster = .granted →
    authorityAt .view endpoint cluster = .granted
  subsumesOperate : ∀ level endpoint cluster, level = .manage ∨ level = .administer →
    authorityAt level endpoint cluster = .granted → authorityAt .operate endpoint cluster = .granted
  /-- Zero without a fabric. -/
  fabric : Nat
  timed : Bool
  largeMessage : Bool
  /-- The endpoints of the group, if the subject is one. -/
  group : Option (List Nat)

/-- `#authorize`: the status to report unless authority is granted. -/
def Session.authorize (session : Session) (level : AccessLevel) (endpoint cluster : Nat) :
    Option Status :=
  match session.authorityAt level endpoint cluster with
  | .granted => none
  | .unauthorized => some .unsupportedAccess
  | .restricted => some .accessRestricted

structure AttributeType where
  id : Nat
  limits : Limits
  /-- The flags of a wildcard path that skip the attribute, as a bitmap. -/
  wildcardPathFlags : Nat
  /-- Its schema is an `ArraySchema`. -/
  isArray : Bool

structure CommandType where
  id : Nat
  limits : Limits
  responseId : Nat

/-- The elements of a list have ids of their own. -/
def Distinct {α : Type} (id : α → Nat) (elements : List α) : Prop :=
  (elements.map id).Nodup

instance {α : Type} (id : α → Nat) (elements : List α) : Decidable (Distinct id elements) :=
  inferInstanceAs (Decidable (elements.map id).Nodup)

def lookup {α : Type} (id : α → Nat) (elements : List α) (key : Nat) : Option α :=
  elements.find? (fun element => id element == key)

structure Cluster where
  id : Nat
  wildcardPathFlags : Nat
  attributes : List AttributeType
  commands : List CommandType
  distinctAttributes : Distinct AttributeType.id attributes
  distinctCommands : Distinct CommandType.id commands

structure Endpoint where
  id : Nat
  wildcardPathFlags : Nat
  clusters : List Cluster
  distinct : Distinct Cluster.id clusters

structure Node where
  nodeId : Nat
  endpoints : List Endpoint
  distinct : Distinct Endpoint.id endpoints

section

variable (cluster : Cluster) (id : Nat)

def Cluster.attributeType : Option AttributeType :=
  lookup AttributeType.id cluster.attributes id

def Cluster.commandType : Option CommandType :=
  lookup CommandType.id cluster.commands id

end

def Endpoint.cluster (endpoint : Endpoint) (id : Nat) : Option Cluster :=
  lookup Cluster.id endpoint.clusters id

variable (node : Node)

def Node.endpoint (id : Nat) : Option Endpoint :=
  lookup Endpoint.id node.endpoints id

def Node.cluster (endpoint cluster : Nat) : Option Cluster :=
  (node.endpoint endpoint).bind (·.cluster cluster)

/-! ### Checks of a path

The first check that fails gives the status to report. -/

def refuseIf (condition : Bool) (status : Status) : Option Status :=
  if condition then some status else none

/-- `#authorize` of a session, which has nothing to say about a local actor. -/
def authorizeRemote (session : Session) (level : AccessLevel) (endpointId clusterId : Nat) :
    Option Status :=
  if session.hasRemoteActor then session.authorize level endpointId clusterId else none

/-- The checks that a concrete path starts with: the node, the level that gates the disclosure of
what exists, the endpoint and the cluster. -/
def refusePath (session : Session) (level : AccessLevel) (nodeId : Option Nat)
    (endpointId clusterId : Nat) : Option Status :=
  (refuseIf (nodeId.any (· ≠ node.nodeId)) .unsupportedNode).or <|
  (authorizeRemote session level endpointId clusterId).or <|
  (refuseIf (node.endpoint endpointId).isNone .unsupportedEndpoint).or <|
  refuseIf (node.cluster endpointId clusterId).isNone .unsupportedCluster

theorem refuseIf_ne_success {c : Bool} {s : Status} (h : s ≠ .success) :
    refuseIf c s ≠ some .success := by
  cases c <;> simp [refuseIf, h]

variable {l : AccessLevel} {s : Session}

theorem authorize_ne_success {e c : Nat} : authorizeRemote s l e c ≠ some .success := by
  unfold authorizeRemote Session.authorize
  split
  · split <;> simp
  · simp

theorem or_ne_success {f s : Option Status} (h : f ≠ some .success)
    (h' : s ≠ some .success) : f.or s ≠ some .success := by
  cases f with
  | none => exact h'
  | some t => exact h

theorem refusePath_ne_success {node : Node}
    {n : Option Nat} {e c : Nat} : refusePath node s l n e c ≠ some .success := by
  refine or_ne_success (refuseIf_ne_success (by decide)) ?_
  refine or_ne_success authorize_ne_success ?_
  exact or_ne_success (refuseIf_ne_success (by decide)) (refuseIf_ne_success (by decide))

/-! ### Lookup in a list of distinct ids -/

variable {α : Type} {id : α → Nat} {e : List α} {a : α} {key : Nat}

theorem lookup_eq_some (h : lookup id e key = some a) : a ∈ e ∧ id a = key := by
  refine ⟨mem_of_find?_eq_some h, ?_⟩
  simpa using find?_some h

theorem lookup_of_mem (hd : Distinct id e) (ha : a ∈ e) : lookup id e (id a) = some a := by
  induction e with
  | nil => cases ha
  | cons b e ih =>
    obtain ⟨hf, hs⟩ := nodup_cons.mp hd
    unfold lookup
    rcases mem_cons.mp ha with rfl | hm
    · rw [find?_cons_of_pos (by simp)]
    · have hn : id b ≠ id a := by
        intro he
        exact hf (he ▸ mem_map_of_mem hm)
      rw [find?_cons_of_neg (by simpa using hn)]
      exact ih hs hm

end MatterJs.Action
