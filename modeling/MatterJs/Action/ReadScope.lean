import Mathlib.Logic.Function.Basic

/-!
# The scope of a read

A client asks whether a cluster is in the scope of a read, and whether the read covers all of it.
The request paths are folded into two tables, of the clusters requested on every endpoint and of
those requested on one.
-/
namespace MatterJs.Action.ReadScope

open Function

structure AttributeRequest where
  endpointId : Option Nat
  clusterId : Option Nat
  attributeId : Option Nat

structure Read where
  attributeRequests : Option (List AttributeRequest)
  isFabricFiltered : Option Bool

inductive AttrRequirement
  | any
  | all
  deriving DecidableEq

/-- `true | Set<ClusterId>`. -/
inductive EndpointClusters
  | all
  | clusters (set : List Nat)

def EndpointClusters.has (c : Nat) : EndpointClusters → Bool
  | all => true
  | clusters l => l.contains c

@[simp] theorem has_all (c : Nat) : EndpointClusters.all.has c := rfl

@[simp] theorem has_clusters (c : Nat) (l : List Nat) :
    (EndpointClusters.clusters l).has c = l.contains c := rfl

structure Tables where
  wildcardEndpointClusters : List Nat := []
  specificEndpointClusters : Nat → Option EndpointClusters := fun _ => none

/-- The check that the loop's tables give. -/
def Tables.test (t : Tables) (endpoint cluster : Nat) : Bool :=
  t.wildcardEndpointClusters.contains cluster ||
    (t.specificEndpointClusters endpoint).any (·.has cluster)

def Tables.set (t : Tables) (e : Nat) (v : EndpointClusters) : Tables :=
  { t with specificEndpointClusters := update t.specificEndpointClusters e v }

/-- One turn of the loop; `none` is the return of `isAlways`. -/
def Tables.add (attrRequirement : AttrRequirement) (t : Tables) (p : AttributeRequest) :
    Option Tables :=
  if p.attributeId ≠ none ∧ attrRequirement = .all then some t
  else match p.endpointId, p.clusterId with
    | none, none => none
    | none, some c => some { t with wildcardEndpointClusters := c :: t.wildcardEndpointClusters }
    | some e, none => some (t.set e .all)
    | some e, some c =>
      if p.attributeId ≠ none then some t
      else match t.specificEndpointClusters e with
        | some .all => some t
        | none => some (t.set e (.clusters [c]))
        | some (.clusters l) => some (t.set e (.clusters (c :: l)))

def generateScopeTester (read : Read) (attrRequirement : AttrRequirement)
    (endpoint cluster : Nat) : Bool :=
  match read.attributeRequests with
  | none | some [] => false
  | some l => match l.foldlM (Tables.add attrRequirement) {} with
    | none => true
    | some t => t.test endpoint cluster

def isRelevant (read : Read) := generateScopeTester read .any

def isWildcard (read : Read) := generateScopeTester read .all

def isFabricFiltered (read : Read) : Bool := read.isFabricFiltered.getD true

/-- The path can select an attribute of the cluster on the endpoint. -/
def AttributeRequest.Matches (p : AttributeRequest) (e c : Nat) : Prop :=
  p.endpointId.getD e = e ∧ p.clusterId.getD c = c

def AttributeRequest.Concrete (p : AttributeRequest) : Prop :=
  p.endpointId ≠ none ∧ p.clusterId ≠ none ∧ p.attributeId ≠ none

/-- What one path contributes to the check. -/
def Counts (q : AttrRequirement) (e c : Nat) (p : AttributeRequest) : Prop :=
  p.Matches e c ∧ ¬p.Concrete ∧ (q = .all → p.attributeId = none)

theorem test_iff (t : Tables) (e c : Nat) : t.test e c ↔ c ∈ t.wildcardEndpointClusters ∨
    ∃ v, t.specificEndpointClusters e = some v ∧ v.has c := by
  simp [Tables.test, Option.any_eq_true]

/-- A new entry for an endpoint counts there and nowhere else. -/
theorem test_set (t : Tables) (d e c : Nat) (v : EndpointClusters) :
    (t.set d v).test e c ↔ if e = d then c ∈ t.wildcardEndpointClusters ∨ v.has c
      else t.test e c := by
  by_cases h : e = d <;> simp [Tables.set, Tables.test, h]

section
variable (q : AttrRequirement)
include q

/-- One path either covers everything, or adds to the tables exactly what it selects. -/
theorem add_spec (t : Tables) (p : AttributeRequest) (e c : Nat) :
    match t.add q p with
    | none => Counts q e c p
    | some u => u.test e c ↔ t.test e c ∨ Counts q e c p := by
  obtain ⟨i, j, a⟩ := p
  by_cases hq : a ≠ none ∧ q = .all
  · simp [Tables.add, hq, Counts]
  have ha : q = .all → a = none := fun h => by_contra fun hn => hq ⟨hn, h⟩
  rw [Tables.add, if_neg hq]
  simp only [Counts, AttributeRequest.Matches, AttributeRequest.Concrete]
  match i, j with
  | none, none => simpa using ha
  | none, some k => grind [test_iff]
  | some d, none => grind [test_set, has_all]
  | some d, some k =>
    by_cases hn : a = none
    · -- What the endpoint has so far decides whether the cluster is new to it.
      match hs : t.specificEndpointClusters d with
      | none => grind [test_set, test_iff, has_clusters]
      | some .all => grind [test_iff, has_all]
      | some (.clusters l) => grind [test_set, test_iff, has_clusters]
    · simp [hn]

/-- The whole loop, from any tables. -/
theorem foldlM_spec (e c : Nat) (l : List AttributeRequest) (t : Tables) :
    match l.foldlM (Tables.add q) t with
    | none => ∃ p ∈ l, Counts q e c p
    | some u => u.test e c ↔ t.test e c ∨ ∃ p ∈ l, Counts q e c p := by
  induction l generalizing t with
  | nil => simp
  | cons p l ih =>
    have ha := add_spec q t p e c
    rw [List.foldlM_cons]
    match hp : t.add q p with
    | none => exact ⟨p, .head l, by simpa [hp] using ha⟩
    | some u =>
      have hu := ih u
      split at hu <;> grind

theorem generateScopeTester_iff (e c : Nat) (r : Read) :
    generateScopeTester r q e c ↔ ∃ p ∈ r.attributeRequests.getD [], Counts q e c p := by
  unfold generateScopeTester
  match r.attributeRequests with
  | none | some [] => simp
  | some (p :: l) =>
    have hl := foldlM_spec q e c (p :: l) {}
    simp only [Option.getD_some]
    split at hl <;> simp_all [Tables.test]

end

/-- A cluster is covered when a path without an attribute matches it, and relevant when a path
with a wildcard of any kind does: a path to one attribute of one cluster is left out on purpose. -/
theorem scope_iff_some_path (r : Read) (e c : Nat) :
    (isRelevant r e c ↔ ∃ p ∈ r.attributeRequests.getD [], p.Matches e c ∧ ¬p.Concrete) ∧
    (isWildcard r e c ↔
      ∃ p ∈ r.attributeRequests.getD [], p.Matches e c ∧ p.attributeId = none) := by
  constructor
  · simp [isRelevant, generateScopeTester_iff, Counts]
  · rw [isWildcard, generateScopeTester_iff]
    grind [Counts, AttributeRequest.Concrete]

/-- The only path selects an attribute of the cluster, which is not relevant for all that. -/
theorem concrete_path_is_not_relevant : let p : AttributeRequest := ⟨some 1, some 6, some 0⟩
    p.Matches 1 6 ∧ isRelevant ⟨some [p], none⟩ 1 6 = false :=
  ⟨⟨rfl, rfl⟩, by decide⟩

end MatterJs.Action.ReadScope
