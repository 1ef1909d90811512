import MatterJs.Groups.GroupKeyManagement

/-! The operational groups of a fabric are those of the persisted lists. -/
namespace MatterJs.Groups

open TransitionSystem EntryMap List GroupKeyMapEntry

def StoredKeySet.key (entry : StoredKeySet) : Nat × Nat := (entry.fabricIndex, entry.groupKeySetId)

def GroupKeyMapEntry.key (entry : GroupKeyMapEntry) : Nat × Nat :=
  (entry.fabricIndex, entry.groupId)

def GroupInfo.key (entry : GroupInfo) : Nat × Nat := (entry.fabricIndex, entry.groupId)

/-- The operational groups of a fabric object are those of its stored key sets, its entries of the
group key map and its entries of the group table. -/
structure Mirrors (object : FabricObject) (groupKeySets : List StoredKeySet)
    (groupKeyMap : List GroupKeyMapEntry) (groupTable : List GroupInfo) : Prop where
  keySets : ∀ keySet, keySet ∈ object.groups.keySets ↔
    (∃ entry ∈ groupKeySets, entry.derive object.derivation = some keySet) ∨
      (∀ entry ∈ groupKeySets, entry.groupKeySetId ≠ 0) ∧
        keySet = FabricGroups.initialKeySet object.identityProtectionKey
          object.operationalIdentityProtectionKey
  unique : (object.groups.keySets.map (·.groupKeySetId)).Nodup
  groupKeyIdMap :
    Represents (·.groupId) (·.groupKeySetId) object.groups.groupKeyIdMap groupKeyMap
  endpoints : Represents (·.groupId) (·.endpoints) object.groups.endpoints groupTable

namespace Server

/-- The operational state of a fabric agrees with the persisted state. -/
def Mirrored (s : Server) (fabricIndex : Nat) : Prop :=
  Mirrors (s.fabric fabricIndex) (s.groupKeySetsOf fabricIndex) (s.groupKeyMapOf fabricIndex)
    (s.groupTableOf fabricIndex)

/-- KeySetReadAllIndices lists every key set of the fabric, and lists it once. -/
def ListsOnce (s : Server) (fabricIndex : Nat) : Prop :=
  (s.keySetReadAllIndices fabricIndex).Nodup ∧
    ∀ groupKeySetId, groupKeySetId ∈ s.keySetReadAllIndices fabricIndex ↔
      ∃ keySet ∈ (s.fabric fabricIndex).groups.keySets, keySet.groupKeySetId = groupKeySetId

end Server

/-! ### The checks -/

namespace ClusterState

variable {n : List (Nat × Nat)}

theorem checkGroupKeyMap_eq_ok {s : List GroupKeyMapEntry} :
    checkGroupKeyMap n s = .ok () ↔ (∀ e ∈ s, isApplicationGroupId e.groupId) ∧
        (s.map GroupKeyMapEntry.key).Nodup ∧ ∀ e ∈ s, e.key ∉ n := by
  induction s generalizing n with
  | nil => simp [checkGroupKeyMap]
  | cons e s ih =>
    unfold checkGroupKeyMap
    by_cases ha : isApplicationGroupId e.groupId
    · by_cases hk : (e.fabricIndex, e.groupId) ∈ n
      · simp [ha, hk, GroupKeyMapEntry.key]
      · simp only [ha, Bool.not_true, Bool.false_eq_true, if_false, hk, ih,
          map_cons, nodup_cons, mem_map, mem_cons, not_or, GroupKeyMapEntry.key]
        grind
    · simp [ha]

theorem checkGroupTable_eq_ok {s : List GroupInfo} :
    checkGroupTable n s = .ok () ↔ (∀ e ∈ s, e.groupId ≠ 0 ∧ e.endpoints.Nodup) ∧
        (s.map GroupInfo.key).Nodup ∧ ∀ e ∈ s, e.key ∉ n := by
  induction s generalizing n with
  | nil => simp [checkGroupTable]
  | cons e s ih =>
    unfold checkGroupTable
    by_cases hz : e.groupId = 0
    · simp [hz]
    · by_cases hk : (e.fabricIndex, e.groupId) ∈ n
      · simp [hz, hk, GroupInfo.key]
      · by_cases he : e.endpoints.Nodup
        · simp only [hz, hk, he, not_true_eq_false, if_false, ih, map_cons,
            nodup_cons, mem_map, mem_cons, not_or, GroupInfo.key]
          grind
        · simp [hz, hk, he]

variable {s : ClusterState}

theorem validateGroupKeyMap_eq_ok : s.validateGroupKeyMap = .ok () ↔
      (∀ e ∈ s.groupKeyMap, isApplicationGroupId e.groupId) ∧
        (s.groupKeyMap.map GroupKeyMapEntry.key).Nodup ∧ ∀ e ∈ s.groupKeyMap,
          s.groupKeyMap.countP (·.fabricIndex == e.fabricIndex) ≤ s.maxGroupsPerFabric := by
  unfold validateGroupKeyMap
  cases hh : checkGroupKeyMap [] s.groupKeyMap with
  | error error =>
    have hn : ¬ checkGroupKeyMap [] s.groupKeyMap = .ok () := by simp [hh]
    rw [checkGroupKeyMap_eq_ok] at hn
    grind
  | ok _ =>
    obtain ⟨ha, hd, -⟩ := checkGroupKeyMap_eq_ok.mp hh
    dsimp only
    split
    · rename_i hm
      obtain ⟨e, he, hc⟩ := any_eq_true.mp hm
      constructor
      · intro hq
        cases hq
      · rintro ⟨-, -, hb⟩
        exact absurd (hb e he) (Nat.not_le.mpr (of_decide_eq_true hc))
    · rename_i hf
      refine iff_of_true rfl ⟨ha, hd, ?_⟩
      intro e he
      by_contra hc
      exact hf (any_eq_true.mpr ⟨e, he, decide_eq_true (Nat.not_le.mp hc)⟩)

/-- The lists have passed their checks, and no stored key set lacks its first key. -/
structure Valid (state : ClusterState) : Prop where
  groupKeySets : (state.groupKeySets.map StoredKeySet.key).Nodup
  derivable : ∀ entry ∈ state.groupKeySets, entry.epochKey0.isSome
  groupKeyMap : state.validateGroupKeyMap = .ok ()
  groupTable : checkGroupTable [] state.groupTable = .ok ()

/-- Fewer entries pass the check too. -/
theorem validateGroupKeyMap_filter {s' : ClusterState} {p : GroupKeyMapEntry → Bool}
    (h : s.validateGroupKeyMap = .ok ()) (hp : s'.groupKeyMap = s.groupKeyMap.filter p)
    (hm : s'.maxGroupsPerFabric = s.maxGroupsPerFabric) : s'.validateGroupKeyMap = .ok () := by
  obtain ⟨ha, hn, hc⟩ := validateGroupKeyMap_eq_ok.mp h
  rw [validateGroupKeyMap_eq_ok, hp, hm]
  refine ⟨?_, ?_, ?_⟩
  · intro entry he
    exact ha entry (mem_of_mem_filter he)
  · exact hn.sublist (filter_sublist.map _)
  · intro entry he
    calc (s.groupKeyMap.filter p).countP (·.fabricIndex == entry.fabricIndex)
        ≤ s.groupKeyMap.countP (·.fabricIndex == entry.fabricIndex) :=
          filter_sublist.countP_le
      _ ≤ s.maxGroupsPerFabric := hc entry (mem_of_mem_filter he)

theorem Valid.groupKeyMap_nodup (h : s.Valid) : (s.groupKeyMap.map GroupKeyMapEntry.key).Nodup :=
  (validateGroupKeyMap_eq_ok.mp h.groupKeyMap).2.1

theorem Valid.groupTable_nodup (h : s.Valid) : (s.groupTable.map GroupInfo.key).Nodup :=
  (checkGroupTable_eq_ok.mp h.groupTable).2.1

end ClusterState

/-! ### Key sets -/

variable {g : GroupKeySet} {k : OperationalKeySet}

@[simp] theorem GroupKeySet.groupKeySetId_derive {d : KeyDerivation}
    (h : g.derive d = some k) : k.groupKeySetId = g.groupKeySetId := by
  obtain ⟨e, -, rfl⟩ := Option.map_eq_some_iff.mp h
  rfl

theorem GroupKeySet.exists_derive (d : KeyDerivation)
    (h : g.epochKey0.isSome) : ∃ keySet, g.derive d = some keySet := by
  obtain ⟨epochKey0, he⟩ := Option.isSome_iff_exists.mp h
  exact ⟨_, by rw [GroupKeySet.derive, he]; rfl⟩

namespace FabricGroups

variable (gs : FabricGroups)

section
variable (k)
include k

section
variable (p : Option OperationalKeySet)
include p

@[simp] theorem keySets_setKeySet :
    (gs.setKeySet k p).keySets = gs.keySets.filter (·.groupKeySetId != k.groupKeySetId) ++ [k] := by
  cases p with
  | none => rfl
  | some entry => exact ((gs.addKeySet k).forget_spec entry).1

@[simp] theorem groupKeyIdMap_setKeySet : (gs.setKeySet k p).groupKeyIdMap = gs.groupKeyIdMap := by
  cases p with
  | none => rfl
  | some entry => exact ((gs.addKeySet k).forget_spec entry).2.1

@[simp] theorem endpoints_setKeySet : (gs.setKeySet k p).endpoints = gs.endpoints := by
  cases p with
  | none => rfl
  | some entry => exact ((gs.addKeySet k).forget_spec entry).2.2.1

end

end

theorem removeGroupKeySet_spec (g : Nat) : (gs.removeGroupKeySet g).keySets =
    gs.keySets.filter (·.groupKeySetId != g) ∧ (gs.removeGroupKeySet g).groupKeyIdMap =
    gs.groupKeyIdMap ∧ (gs.removeGroupKeySet g).endpoints = gs.endpoints := by
  unfold removeGroupKeySet
  cases gs.keySet g with
  | none => exact ⟨rfl, rfl, rfl⟩
  | some entry =>
    have h := (gs.deleteKeySet g).forget_spec entry
    exact ⟨h.1, h.2.1, h.2.2.1⟩

theorem nodup_setKeySet (k : OperationalKeySet) (p : Option OperationalKeySet)
    (h : (gs.keySets.map (·.groupKeySetId)).Nodup) :
    ((gs.setKeySet k p).keySets.map (·.groupKeySetId)).Nodup := by
  rw [keySets_setKeySet, map_append, map_singleton]
  refine (h.sublist (filter_sublist.map _)).append (nodup_singleton _) ?_
  intro groupKeySetId ho hn
  obtain ⟨entry, he, rfl⟩ := mem_map.mp ho
  have hne := (mem_filter.mp he).2
  simp [mem_singleton.mp hn] at hne

theorem represents_setGroupKeyIdMap {et : List GroupKeyMapEntry}
    (hn : (et.map (·.groupId)).Nodup) : Represents (·.groupId) (·.groupKeySetId)
      (gs.setGroupKeyIdMap (et.map mapping)).groupKeyIdMap et := by
  have hp : ((et.map mapping).map Prod.fst).Nodup := by
    rw [map_map]
    exact hn
  intro groupId groupKeySetId
  have hs := setAll_restrict Prod.fst Prod.snd gs.groupKeyIdMap hp groupId
  have hr := represents_setAll Prod.fst Prod.snd hp groupId groupKeySetId
  rw [← hs] at hr
  refine hr.trans ?_
  simp [mapping]

end FabricGroups

namespace Mirrors

variable {o : FabricObject} {gks gks' : List StoredKeySet}
  {m : List GroupKeyMapEntry} {gt : List GroupInfo}

theorem create (i : FabricIdentity) : Mirrors i.create [] [] [] where
  keySets := by
    simp [FabricIdentity.create, FabricGroups.new]
  unique := by simp [FabricIdentity.create, FabricGroups.new]
  groupKeyIdMap := represents_nil
  endpoints := represents_nil

section
variable (h : Mirrors o gks m gt)
include h

variable {gkm' : List GroupKeyMapEntry} {gt' : List GroupInfo}

/-- Only the entries of the lists matter. -/
theorem congr
    (hk : ∀ e, e ∈ gks' ↔ e ∈ gks) (hm : ∀ e, e ∈ gkm' ↔ e ∈ m) (ht : ∀ e, e ∈ gt' ↔ e ∈ gt) :
    Mirrors o gks' gkm' gt' where
  keySets := by
    intro k
    simp [h.keySets, hk]
  unique := h.unique
  groupKeyIdMap := h.groupKeyIdMap.congr (by simp [hm])
  endpoints := h.endpoints.congr (by simp [ht])

theorem setKeySet {e : StoredKeySet} (hd : e.derive o.derivation = some k) (hs : ∀ t, t ∈ gks' ↔
      (t ∈ gks ∧ t.groupKeySetId ≠ e.groupKeySetId) ∨ t = e) (p : Option OperationalKeySet) :
    Mirrors { o with groups := o.groups.setKeySet k p } gks'
      m gt where
  keySets := by
    have hid := GroupKeySet.groupKeySetId_derive hd
    intro t
    simp only [FabricGroups.keySets_setKeySet, mem_append, mem_filter,
      mem_singleton, h.keySets, bne_iff_ne, ne_eq, hid]
    constructor
    · rintro (⟨⟨s, hm, ho⟩ | ⟨hzr, rfl⟩, hn⟩ | rfl)
      · have hi := GroupKeySet.groupKeySetId_derive ho
        rw [hi] at hn
        exact .inl ⟨s, (hs s).mpr (.inl ⟨hm, hn⟩), ho⟩
      · refine .inr ⟨?_, rfl⟩
        intro s hm
        rcases (hs s).mp hm with ⟨hl, -⟩ | rfl
        · exact hzr s hl
        · exact fun hz => hn hz.symm
      · exact .inl ⟨e, (hs e).mpr (.inr rfl), hd⟩
    · rintro (⟨s, hm, ho⟩ | ⟨hzr, rfl⟩)
      · rcases (hs s).mp hm with ⟨hl, hn⟩ | rfl
        · have hi := GroupKeySet.groupKeySetId_derive ho
          rw [← hi] at hn
          exact .inl ⟨.inl ⟨s, hl, ho⟩, hn⟩
        · exact .inr (Option.mem_unique ho hd)
      · have he := hzr e ((hs e).mpr (.inr rfl))
        refine .inl ⟨.inr ⟨?_, rfl⟩, fun hz => he hz.symm⟩
        intro s hm
        by_cases hid' : s.groupKeySetId = e.groupKeySetId
        · rw [hid']
          exact he
        · exact hzr s ((hs s).mpr (.inl ⟨hm, hid'⟩))
  unique := o.groups.nodup_setKeySet k p h.unique
  groupKeyIdMap := by
    rw [FabricGroups.groupKeyIdMap_setKeySet]
    exact h.groupKeyIdMap
  endpoints := by
    rw [FabricGroups.endpoints_setKeySet]
    exact h.endpoints

theorem removeGroupKeySet {g : Nat} (hzr : g ≠ 0)
    (ht : ∀ t, t ∈ gks' ↔ t ∈ gks ∧ t.groupKeySetId ≠ g) :
    Mirrors { o with groups := o.groups.removeGroupKeySet g } gks'
      m gt := by
  obtain ⟨hk, hi, he⟩ := o.groups.removeGroupKeySet_spec g
  refine ⟨?_, ?_, ?_, ?_⟩
  · intro t
    simp only [hk, mem_filter, h.keySets, bne_iff_ne, ne_eq]
    constructor
    · rintro ⟨⟨s, hm, ho⟩ | ⟨hnn, rfl⟩, hn⟩
      · have hs := GroupKeySet.groupKeySetId_derive ho
        rw [hs] at hn
        exact .inl ⟨s, (ht s).mpr ⟨hm, hn⟩, ho⟩
      · exact .inr ⟨fun s hm => hnn s ((ht s).mp hm).1, rfl⟩
    · rintro (⟨s, hm, ho⟩ | ⟨hnn, rfl⟩)
      · obtain ⟨hl, hn⟩ := (ht s).mp hm
        have hs := GroupKeySet.groupKeySetId_derive ho
        rw [← hs] at hn
        exact ⟨.inl ⟨s, hl, ho⟩, hn⟩
      · refine ⟨.inr ⟨?_, rfl⟩, fun hz => hzr hz.symm⟩
        intro s hm hz
        exact hnn s ((ht s).mpr ⟨hm, fun hd => hzr (hd.symm.trans hz)⟩) hz
  · simp only [hk]
    exact h.unique.sublist (filter_sublist.map _)
  · simp only [hi]
    exact h.groupKeyIdMap
  · simp only [he]
    exact h.endpoints

theorem setGroupKeyIdMap (hn : (gkm'.map (·.groupId)).Nodup) : Mirrors
      { o with
        groups := o.groups.setGroupKeyIdMap (gkm'.map mapping) }
      gks gkm' gt where
  keySets := h.keySets
  unique := h.unique
  groupKeyIdMap := o.groups.represents_setGroupKeyIdMap hn
  endpoints := h.endpoints

theorem setEndpoints {e : Nat → Option (List Nat)}
    (he : Represents (·.groupId) (·.endpoints) e gt') :
    Mirrors { o with groups := { o.groups with endpoints := e } } gks m
      gt' where
  keySets := h.keySets
  unique := h.unique
  groupKeyIdMap := h.groupKeyIdMap
  endpoints := he

end

end Mirrors

end MatterJs.Groups
