import MatterJs.Groups.GroupRemoval

/-! A restart and a new fabric object find the operational groups again in the persisted lists. -/
namespace MatterJs.Groups

open TransitionSystem EntryMap List Function GroupKeySet

namespace Server

variable {s t : Server} {f o : Nat}

/-- Stored key sets are set one after the other. -/
theorem setStoredKeySets_spec (e : List StoredKeySet) (hd : ∀ entry ∈ e, entry.epochKey0.isSome)
    (hu : ∀ entry ∈ e, ∀ e' ∈ e, entry.key = e'.key → entry = e') (s : Server) :
    ∃ t, s.setStoredKeySets e = (true, t) ∧ t.state = s.state ∧ t.fabrics = s.fabrics ∧
      ∀ f bf m groupTable, Mirrors (s.fabric f) bf m groupTable →
        ∃ af, Mirrors (t.fabric f) af m groupTable ∧ ∀ st, st ∈ af ↔
            (st ∈ bf ∧ ∀ entry ∈ e, entry.fabricIndex = f →
              entry.groupKeySetId ≠ st.groupKeySetId) ∨ (st ∈ e ∧ st.fabricIndex = f) := by
  induction e generalizing s with
  | nil =>
    refine ⟨s, rfl, rfl, rfl, ?_⟩
    intro f bf m groupTable h
    exact ⟨bf, h, by simp⟩
  | cons entry e ih =>
    obtain ⟨k, hdr⟩ := exists_derive (s.fabric entry.fabricIndex).derivation
      (hd entry mem_cons_self)
    obtain ⟨t, ht, hst, hf, hm⟩ :=
      ih (fun o hot => hd o (mem_cons_of_mem _ hot))
        (fun a ha b hb => hu a (mem_cons_of_mem _ ha) b (mem_cons_of_mem _ hb))
        (s.setFromGroupKeySet entry.fabricIndex k)
    refine ⟨t, ?_, hst, hf, ?_⟩
    · rw [setStoredKeySets, hdr]
      exact ht
    · intro f bf m groupTable h
      by_cases hi : f = entry.fabricIndex
      · subst hi
        have hs : ∀ st, st ∈ bf.filter (fun st =>
            st.groupKeySetId != entry.groupKeySetId) ++ [entry] ↔
            (st ∈ bf ∧ st.groupKeySetId ≠ entry.groupKeySetId) ∨ st = entry := by
          simp
        have hset := h.setKeySet hdr hs
          ((s.fabric entry.fabricIndex).groups.keySet k.groupKeySetId)
        rw [← fabric_update_self (fun g =>
          g.setKeySet k (g.keySet k.groupKeySetId))] at hset
        obtain ⟨af, haf, hmem⟩ := hm _ _ _ _ hset
        refine ⟨af, haf, ?_⟩
        have hsame := hu entry mem_cons_self
        simp only [StoredKeySet.key] at hsame
        grind
      · have ho : Mirrors ((s.setFromGroupKeySet entry.fabricIndex k).fabric
            f) bf m groupTable := by
          rw [setFromGroupKeySet, fabric_update_of_ne _ hi]
          exact h
        obtain ⟨af, haf, hmem⟩ := hm _ _ _ _ ho
        refine ⟨af, haf, ?_⟩
        grind

theorem setStoredEndpoints_spec (e : List GroupInfo) (s : Server) :
    (s.setStoredEndpoints e).state = s.state ∧ (s.setStoredEndpoints e).fabrics = s.fabrics ∧
      ∀ f, (s.setStoredEndpoints e).fabric f =
        { s.fabric f with groups := { (s.fabric f).groups with
          endpoints := setAll (·.groupId) (·.endpoints) (s.fabric f).groups.endpoints
            (e.filter (·.fabricIndex == f)) } } := by
  induction e generalizing s with
  | nil => exact ⟨rfl, rfl, fun _ => rfl⟩
  | cons entry e ih =>
    obtain ⟨hs, hf, hfb⟩ := ih
      (s.updateGroups entry.fabricIndex (·.setEndpoints entry.groupId entry.endpoints))
    refine ⟨hs, hf, ?_⟩
    intro f
    refine (hfb f).trans ?_
    by_cases hi : entry.fabricIndex = f
    · subst hi
      simp [FabricGroups.setEndpoints, setAll]
    · rw [fabric_update_of_ne _ (Ne.symm hi)]
      simp [hi]

/-- The group table of a fabric is set on an object without groups. -/
theorem represents_setAll_endpoints (h : s.state.Valid) (f : Nat) :
    Represents (·.groupId) (·.endpoints)
      (setAll (·.groupId) (·.endpoints) (fun _ => none) (s.groupTableOf f)) (s.groupTableOf f) :=
  represents_setAll _ _ (groupTableOf_nodup h f)

theorem key_unique (h : s.state.Valid) : ∀ e ∈ s.state.groupKeySets,
    ∀ entry' ∈ s.state.groupKeySets, e.key = entry'.key → e = entry' := by
  intro e he entry' he' hkey
  exact inj_on_of_nodup_map h.groupKeySets he he' hkey

variable {bf k : List StoredKeySet} {m : List GroupKeyMapEntry}
  {gt : List GroupInfo}

/-! ### Fabric updates -/

/-- The key sets of a fabric are set again on an object that has no others. -/
theorem mirrors_setOwnKeySets (h : s.state.Valid) (ho : Mirrors (s.fabric f) bf m gt)
    (hb : ∀ e ∈ bf, e ∈ s.groupKeySetsOf f) : ∃ t, s.setStoredKeySets (s.groupKeySetsOf f) =
    (true, t) ∧ t.state = s.state ∧ t.fabrics = s.fabrics ∧ Mirrors (t.fabric f)
    (s.groupKeySetsOf f) m gt ∧ ∀ o, o ≠ f → s.Mirrored o → t.Mirrored o := by
  have hown : ∀ e ∈ s.groupKeySetsOf f, e ∈ s.state.groupKeySets ∧ e.fabricIndex = f := by
    intro e he
    simpa [groupKeySetsOf] using he
  obtain ⟨t, ht, hs, hf, hm⟩ :=
    setStoredKeySets_spec (s.groupKeySetsOf f)
      (fun e he => h.derivable e (hown e he).1)
      (fun e he e' he' =>
        key_unique h e (hown e he).1 e' (hown e' he').1) s
  refine ⟨t, ht, hs, hf, ?_, ?_⟩
  · obtain ⟨after, ha, hmem⟩ := hm f _ _ _ ho
    refine ha.congr ?_ (fun _ => Iff.rfl) (fun _ => Iff.rfl)
    intro e
    rw [hmem]
    constructor
    · intro he
      exact .inr ⟨he, (hown e he).2⟩
    · rintro (⟨hold, -⟩ | ⟨he, -⟩)
      · exact hb e hold
      · exact he
  · intro o hne hot
    obtain ⟨after, ha, hmem⟩ := hm o _ _ _ hot
    have hl : t.Mirrored o = Mirrors (t.fabric o) (s.groupKeySetsOf o)
        (s.groupKeyMapOf o) (s.groupTableOf o) := by
      simp [Mirrored, groupKeySetsOf, groupKeyMapOf, groupTableOf, hs]
    rw [hl]
    refine ha.congr ?_ (fun _ => Iff.rfl) (fun _ => Iff.rfl)
    intro e
    rw [hmem]
    constructor
    · intro he
      refine .inl ⟨he, ?_⟩
      intro e' he' hi
      exact absurd (hi.symm.trans (hown e' he').2) hne
    · rintro (⟨hold, -⟩ | ⟨he, hi⟩)
      · exact hold
      · exact absurd (hi.symm.trans (hown e he).2) hne

theorem Mirrored.congr (h : s.Mirrored f) (hs : t.state = s.state)
    (hf : t.fabric f = s.fabric f) : t.Mirrored f := by
  unfold Mirrored groupKeySetsOf groupKeyMapOf groupTableOf at h ⊢
  rw [hs, hf]
  exact h

section
variable (hv : s.state.Valid)
include hv

theorem groupKeyMap_restored (h : Mirrors (s.fabric f) k m gt)
    (hnil : s.state.groupKeyMap = [] → m = []) :
    let restored := if s.state.groupKeyMap = [] then s else s.restoreGroupKeyMap f
    restored.state = s.state ∧ restored.fabrics = s.fabrics ∧
      Mirrors (restored.fabric f) k (s.groupKeyMapOf f)
        gt ∧ ∀ o, o ≠ f → restored.fabric o = s.fabric o := by
  intro restored
  by_cases he : s.state.groupKeyMap = []
  · have hr : restored = s := if_pos he
    have hown : s.groupKeyMapOf f = [] := by simp [groupKeyMapOf, he]
    rw [hr, hown, ← hnil he]
    exact ⟨rfl, rfl, h, fun _ _ => rfl⟩
  · have hr : restored = s.restoreGroupKeyMap f := if_neg he
    rw [hr, restoreGroupKeyMap, fabric_update_self]
    refine ⟨rfl, rfl, h.setGroupKeyIdMap (groupKeyMapOf_nodup hv f), ?_⟩
    exact fun o hne => fabric_update_of_ne _ hne

theorem groupTable_restored (h : Mirrors (s.fabric f) k m gt)
    (hnil : s.state.groupTable = [] → gt = []) :
    let restored := if s.state.groupTable = [] then s
      else (s.updateGroups f (fun g =>
        { g with endpoints := fun _ => none })).setStoredEndpoints (s.groupTableOf f)
    restored.state = s.state ∧ restored.fabrics = s.fabrics ∧ Mirrors (restored.fabric f) k m
        (s.groupTableOf f) ∧ ∀ o, o ≠ f → restored.fabric o = s.fabric o := by
  intro restored
  by_cases he : s.state.groupTable = []
  · have hr : restored = s := if_pos he
    have hown : s.groupTableOf f = [] := by simp [groupTableOf, he]
    rw [hr, hown, ← hnil he]
    exact ⟨rfl, rfl, h, fun _ _ => rfl⟩
  · obtain ⟨hs, hfb, hf⟩ := setStoredEndpoints_spec (s.groupTableOf f)
      (s.updateGroups f (fun g => { g with endpoints := fun _ => none }))
    rw [show restored = _ from if_neg he]
    refine ⟨hs, hfb, ?_, ?_⟩
    · have hown : (s.groupTableOf f).filter (·.fabricIndex == f) = s.groupTableOf f := by
        simp [groupTableOf]
      rw [hf, fabric_update_self, hown]
      exact h.setEndpoints (represents_setAll_endpoints hv f)
    · intro o hne
      have hnone : (s.groupTableOf f).filter (·.fabricIndex == o) = [] := by
        rw [filter_eq_nil_iff]
        intro entry hen hi
        have hown := (mem_filter.mp hen).2
        exact hne ((beq_iff_eq.mp hi).symm.trans (beq_iff_eq.mp hown))
      rw [hf, hnone, fabric_update_of_ne _ hne]
      rfl

/-- The reaction to an updated fabric, whose object is new or has been in step before. -/
theorem handleFabricUpdate_spec (ho : Mirrors (s.fabric f) bf m gt)
    (hb : ∀ e ∈ bf, e ∈ s.groupKeySetsOf f) (hmap : s.state.groupKeyMap = [] → m = [])
    (htb : s.state.groupTable = [] → gt = []) (hst : s.state.groupKeySets ≠ []) :
    (s.handleFabricUpdate f).state = s.state ∧ (s.handleFabricUpdate f).fabrics = s.fabrics ∧
    Mirrors ((s.handleFabricUpdate f).fabric f) (s.groupKeySetsOf f) (s.groupKeyMapOf f)
    (s.groupTableOf f) ∧ ∀ o, o ≠ f → s.Mirrored o → (s.handleFabricUpdate f).Mirrored o := by
  obtain ⟨t, ht, hs, hf, hself, hfr⟩ := mirrors_setOwnKeySets hv ho hb
  have hm : t.groupKeyMapOf f = s.groupKeyMapOf f := by
    simp [groupKeyMapOf, hs]
  rw [← hs] at hv hmap htb
  obtain ⟨hs', hf', hsl', hfr'⟩ := groupKeyMap_restored hv hself hmap
  rw [← hs'] at hv htb
  rw [hm] at hsl'
  obtain ⟨hs'', hf'', hsl'', hfr''⟩ := groupTable_restored hv hsl' htb
  rw [Server.handleFabricUpdate, if_neg hst, ht]
  refine ⟨hs''.trans (hs'.trans hs), hf''.trans (hf'.trans hf), ?_, ?_⟩
  · have hown : _ = s.groupTableOf f :=
      congrArg (fun st : ClusterState => st.groupTable.filter (·.fabricIndex == f)) (hs'.trans hs)
    rw [← hown]
    exact hsl''
  · intro o hne hot
    exact (hfr o hne hot).congr (hs''.trans hs')
      ((hfr'' o hne).trans (hfr' o hne))

theorem Mirror.handleFabricUpdate (hk : ∀ e ∈ s.state.groupKeySets, e.fabricIndex ∈ s.fabrics)
    (hob : Mirrors (s.fabric f) bf m gt) (hb : ∀ e ∈ bf, e ∈ s.groupKeySetsOf f)
    (hmap : s.state.groupKeyMap = [] → m = []) (ht : s.state.groupTable = [] → gt = [])
    (hot : ∀ o ∈ s.fabrics, o ≠ f → s.Mirrored o) (hst : s.state.groupKeySets ≠ []) :
    Mirror (s.handleFabricUpdate f) := by
  obtain ⟨hs, hf, hself, hfr⟩ :=
    handleFabricUpdate_spec hv hob hb hmap ht hst
  refine ⟨?_, ?_, ?_⟩
  · rw [hs]
    exact hv
  · rw [hs, hf]
    exact hk
  · intro o ho
    rw [hf] at ho
    by_cases hne : o = f
    · subst hne
      unfold Mirrored groupKeySetsOf groupKeyMapOf groupTableOf
      rw [hs]
      exact hself
    · exact hfr o hne (hot o ho hne)

end

/-- A fabric whose object is new has no groups, or there are key sets that set off the update. -/
def updates (s : Server) (f : Nat) : Bool :=
  !s.state.groupKeySets.isEmpty ||
    (s.groupKeyMapOf f).isEmpty && (s.groupTableOf f).isEmpty

theorem Mirror.persistFabric (h : Mirror s) (hf : f ∈ s.fabrics) :
    Mirror (s.handleFabricUpdate f) := by
  by_cases hs : s.state.groupKeySets = []
  · rw [Server.handleFabricUpdate, if_pos hs]
    exact h
  · refine Mirror.handleFabricUpdate h.valid h.known (h.mirrored f hf)
      (fun _ he => he) ?_ ?_ (fun o ho _ => h.mirrored o ho) hs
    · intro hnil
      simp [groupKeyMapOf, hnil]
    · intro hnil
      simp [groupTableOf, hnil]

theorem Mirror.replaceFabric (h : Mirror s) (hf : f ∈ s.fabrics)
    (hu : s.updates f) (i : FabricIdentity) : Mirror (s.replaceFabric f i) := by
  have ho : Mirrors (update s.fabric f i.create f) [] []
      [] := by
    rw [update_self]
    exact Mirrors.create i
  have hot : ∀ o ∈ s.fabrics, o ≠ f →
      ({ s with fabric := update s.fabric f i.create } : Server).Mirrored o := by
    intro o hoh hne
    exact (h.mirrored o hoh).congr rfl (update_of_ne hne _ _)
  by_cases hs : s.state.groupKeySets = []
  · have he : s.groupKeyMapOf f = [] ∧ s.groupTableOf f = [] := by
      simpa [updates, hs] using hu
    rw [Server.replaceFabric, Server.handleFabricUpdate, if_pos hs]
    refine ⟨h.valid, h.known, ?_⟩
    intro o hoh
    by_cases hne : o = f
    · subst hne
      have hk : s.groupKeySetsOf o = [] := by simp [groupKeySetsOf, hs]
      change Mirrors _ (s.groupKeySetsOf o) (s.groupKeyMapOf o) (s.groupTableOf o)
      rw [hk, he.1, he.2]
      exact ho
    · exact hot o hoh hne
  · unfold Server.replaceFabric
    apply Mirror.handleFabricUpdate
    case hv => exact h.valid
    case hk => exact h.known
    case hob => exact ho
    case hb => simp
    case hmap => exact fun _ => rfl
    case ht => exact fun _ => rfl
    case hot => exact hot
    case hst => exact hs

/-! ### Restarts -/

section
variable (hk : ∀ e ∈ s.state.groupKeySets, e.fabricIndex ∈ s.fabrics)
include hk

theorem mem_knownKeySets (e : StoredKeySet) : e ∈ s.knownKeySets ↔ e ∈ s.state.groupKeySets := by
  simp only [knownKeySets, mem_flatMap, mem_eraseDups, mem_map, mem_filter,
    contains_iff_mem, beq_iff_eq]
  constructor
  · rintro ⟨f, -, ⟨he, -⟩, -⟩
    exact he
  · intro he
    have hi := hk e he
    exact ⟨e.fabricIndex, ⟨e, ⟨he, hi⟩, rfl⟩, ⟨he, hi⟩, rfl⟩

theorem online_of_known
    (ht : s.setStoredKeySets s.knownKeySets = (true, t)) :
    let restored := if t.state.groupKeyMap = [] then t else t.updateGroupKeyMap none
    s.online = restored.setStoredEndpoints (restored.state.groupTable.filter (fun e =>
      restored.fabrics.contains e.fabricIndex)) := by
  intro restored
  have hf : s.state.groupKeySets.filter (fun e => s.fabrics.contains e.fabricIndex) =
      s.state.groupKeySets := by
    rw [filter_eq_self]
    intro e he
    exact contains_iff_mem.mpr (hk e he)
  simp only [online, hf, ht, restored]

end

/-- The group key maps of all fabrics, after a restart. -/
theorem updateGroupKeyMap_none (hv : s.state.Valid) (hf : f ∈ s.fabrics)
    (h : Mirrors (s.fabric f) k [] gt) :
    let restored := if s.state.groupKeyMap = [] then s else s.updateGroupKeyMap none
    restored.state = s.state ∧ restored.fabrics = s.fabrics ∧
      Mirrors (restored.fabric f) k (s.groupKeyMapOf f)
        gt := by
  intro restored
  by_cases he : s.state.groupKeyMap = []
  · have hr : restored = s := if_pos he
    have hown : s.groupKeyMapOf f = [] := by simp [groupKeyMapOf, he]
    rw [hr, hown]
    exact ⟨rfl, rfl, h⟩
  · have hr : restored = s.updateGroupKeyMap none := if_neg he
    rw [hr]
    refine ⟨rfl, rfl, ?_⟩
    unfold updateGroupKeyMap
    dsimp only
    split
    · rw [restoreGroupKeyMap, fabric_update_self]
      exact h.setGroupKeyIdMap (groupKeyMapOf_nodup hv f)
    · rename_i hnone
      have hown : s.groupKeyMapOf f = [] := by
        by_contra hne
        exact hnone ⟨hf, hne⟩
      rw [hown]
      exact h

theorem Mirror.restart (h : Mirror s) : Mirror s.restart := by
  obtain ⟨t, ht, hs, hf, hm⟩ := setStoredKeySets_spec s.knownKeySets
    (fun e he => h.valid.derivable e ((mem_knownKeySets h.known e).mp he))
    (fun e he e' he' => key_unique h.valid e ((mem_knownKeySets h.known e).mp he)
      e' ((mem_knownKeySets h.known e').mp he'))
    { s with fabric := fun f => (s.fabric f).toFabricIdentity.create }
  have hon : s.restart = _ := online_of_known h.known ht
  have hv : t.state.Valid := by
    rw [hs]
    exact h.valid
  generalize hr : (if t.state.groupKeyMap = [] then t else t.updateGroupKeyMap none) =
    restored at hon
  have hsame : restored.state = s.state ∧ restored.fabrics = s.fabrics := by
    rw [← hr]
    split
    · exact ⟨hs, hf⟩
    · exact ⟨hs, hf⟩
  obtain ⟨hs', hf', hfb⟩ := setStoredEndpoints_spec
    (restored.state.groupTable.filter (fun e => restored.fabrics.contains e.fabricIndex))
    restored
  rw [← hon] at hs' hf' hfb
  refine ⟨?_, ?_, ?_⟩
  · rw [hs', hsame.1]
    exact h.valid
  · rw [hs', hf', hsame.1, hsame.2]
    exact h.known
  · intro o ho
    rw [hf', hsame.2] at ho
    obtain ⟨after, ha, hmem⟩ := hm o [] [] [] (Mirrors.create _)
    have hk : Mirrors (t.fabric o) (s.groupKeySetsOf o) [] [] := by
      refine ha.congr ?_ (fun _ => Iff.rfl) (fun _ => Iff.rfl)
      intro e
      rw [hmem, mem_knownKeySets h.known]
      simp [groupKeySetsOf]
    have ho' : o ∈ t.fabrics := by
      rw [hf]
      exact ho
    obtain ⟨-, -, hmap⟩ := updateGroupKeyMap_none hv ho' hk
    rw [hr] at hmap
    have htb : (restored.state.groupTable.filter (fun e =>
        restored.fabrics.contains e.fabricIndex)).filter (·.fabricIndex == o) =
        s.groupTableOf o := by
      rw [hsame.1, hsame.2, filter_filter]
      refine filter_congr ?_
      intro e _
      by_cases hi : e.fabricIndex = o
      · simp [hi, ho]
      · simp [hi]
    have hself : Mirrors (s.restart.fabric o) (s.groupKeySetsOf o) (t.groupKeyMapOf o)
        (s.groupTableOf o) := by
      rw [hfb, htb, hmap.endpoints.eq_none]
      exact hmap.setEndpoints (represents_setAll_endpoints h.valid o)
    unfold Mirrored groupKeySetsOf groupKeyMapOf groupTableOf
    rw [hs', hsame.1]
    unfold groupKeyMapOf at hself
    rw [hs] at hself
    exact hself

/-! ### Runs -/

/-- A local write of the group key map leaves every fabric that has entries at least one, an
endpoint is removed in an order that keeps the managed lists, and a fabric object is replaced when
there are key sets or nothing to restore. -/
def keepsInStep (s : Server) : GroupOperation → Bool
  | .writeGroupKeyMap none groupKeyMap => s.keepsEntries groupKeyMap
  | .removeEndpoint f endpointId groupId =>
    Removal.ordered f endpointId groupId s.state.groupTable
  | .replaceFabric f _ => s.updates f
  | _ => true

theorem Mirror.invoke (h : Mirror s) {r : Except GroupError Server} (hok : ∀ a, f ∈ s.fabrics →
    r = .ok a → Mirror (a.commit (some f) s)) (hp : s.invoke f r = some t) : Mirror t := by
  obtain ⟨hf, rfl⟩ := of_enabled hp
  cases r with
  | error error => exact h
  | ok a => exact hok a hf rfl

theorem Mirror.step {o : GroupOperation} (h : Mirror s)
    (hg : s.keepsInStep o) (hp : s.step o = some t) : Mirror t := by
  cases o with
  | keySetWrite f k =>
    exact h.invoke (fun a hf ha => h.keySetWrite hf ha) hp
  | keySetRemove f g =>
    exact h.invoke (fun a hf ha => h.keySetRemove hf ha) hp
  | writeGroupKeyMap actor m =>
    obtain ⟨hw, rfl⟩ := of_enabled hp
    cases actor with
    | none => exact h.writeLocal hg
    | some f => exact h.writeRemote hw
  | addEndpointForGroup f gi e n =>
    obtain ⟨hgr, hi⟩ := Option.ite_none_left_eq_some.mp hp
    exact h.invoke (fun a hf ha =>
      h.addEndpointForGroup hf (by omega) ha) hi
  | removeEndpoint f e gi =>
    have hi : s.invoke f
        (.ok (s.removeEndpoint f e gi).2) = some t := hp
    refine h.invoke ?_ hi
    intro a hf ha
    cases ha
    exact h.removeEndpoint hf hg
  | replaceFabric f i =>
    obtain ⟨hf, rfl⟩ := of_enabled hp
    exact h.replaceFabric hf hg i
  | persistFabric f =>
    obtain ⟨hf, rfl⟩ := of_enabled hp
    exact h.persistFabric hf
  | restart =>
    cases hp
    exact h.restart

/-- The indices that are read are those of the key sets, and the key set 0 once more if it is
stored. -/
theorem listsOnce_iff (hv : s.state.Valid) (h : s.Mirrored f) :
    s.ListsOnce f ↔ ∀ e ∈ s.groupKeySetsOf f, e.groupKeySetId ≠ 0 := by
  have hnd : ((s.groupKeySetsOf f).map (·.groupKeySetId)).Nodup :=
    nodup_map_filter hv.groupKeySets f
  constructor
  · rintro ⟨hlist, -⟩ e he hid
    exact (nodup_cons.mp hlist).1 (mem_map.mpr ⟨e, he, hid⟩)
  · intro hnone
    constructor
    · refine nodup_cons.mpr ⟨?_, hnd⟩
      intro hmem
      obtain ⟨e, he, hid⟩ := mem_map.mp hmem
      exact hnone e he hid
    · intro groupKeySetId
      rw [keySetReadAllIndices, mem_cons, mem_map]
      constructor
      · rintro (rfl | ⟨e, he, rfl⟩)
        · exact ⟨_, (h.keySets _).mpr (.inr ⟨hnone, rfl⟩), rfl⟩
        · obtain ⟨k, hd⟩ := exists_derive (s.fabric f).derivation
            (hv.derivable e (mem_of_mem_filter he))
          exact ⟨k, (h.keySets k).mpr (.inl ⟨e, he, hd⟩), groupKeySetId_derive hd⟩
      · rintro ⟨k, hk, rfl⟩
        rcases (h.keySets k).mp hk with ⟨e, he, hd⟩ | ⟨-, rfl⟩
        · exact .inr ⟨e, he, (groupKeySetId_derive hd).symm⟩
        · exact .inl rfl

end Server

/-- After every operation the operational groups of every fabric are those of its stored key sets,
of the group key map and of the group table, and the key sets are listed once unless the key set 0
is stored. -/
theorem group_state_is_mirrored (fabrics : List Nat) (identity : Nat → FabricIdentity)
    (maxGroupKeysPerFabric maxGroupsPerFabric : Nat) (operations : List GroupOperation) (s : Server)
    (h : Run (guarded Server.step (·.keepsInStep ·))
      (Server.new fabrics identity maxGroupKeysPerFabric maxGroupsPerFabric) operations s)
    (fabricIndex : Nat) (hfabric : fabricIndex ∈ s.fabrics) : s.Mirrored fabricIndex ∧
      (s.ListsOnce fabricIndex ↔
        ∀ entry ∈ s.groupKeySetsOf fabricIndex, entry.groupKeySetId ≠ 0) := by
  have hmr : s.Mirror := by
    refine guarded_invariant (I := Server.Mirror) ?_ h (Server.mirror_new _ _ _ _)
    intro s operation t hg hstep hs
    exact hs.step hg hstep
  have hm := hmr.mirrored fabricIndex hfabric
  exact ⟨hm, Server.listsOnce_iff hmr.valid hm⟩

def writtenKeySet (groupKeySetId epochKey : Nat) : GroupKeySet :=
  ⟨groupKeySetId, some epochKey, some 946684800000001, none, none, none, none, 0, none⟩

def singleFabric : Server := Server.new [1] (fun _ => ⟨⟨id, id⟩, 100, 100⟩) 20 22

/-- A restart restores the group 5 of the fabric. -/
theorem group_state_is_mirrored_restarted : ∃ s : Server, (s.fabric 1).groups.groupKeyIdMap 5 =
    some 1 ∧ (s.fabric 1).groups.endpoints 5 = some [3] ∧ s.keySetReadAllIndices 1 = [0, 1] ∧
    s.Mirrored 1 ∧ (s.ListsOnce 1 ↔ ∀ entry ∈ s.groupKeySetsOf 1, entry.groupKeySetId ≠ 0) :=
  ⟨_, by decide, by decide, by decide, group_state_is_mirrored [1] (fun _ => ⟨⟨id, id⟩, 100, 100⟩)
    20 22 [.keySetWrite 1 (writtenKeySet 1 7), .writeGroupKeyMap (some 1) [⟨5, 1, 1⟩],
      .addEndpointForGroup 1 5 3 "group", .restart] _ (run_of_exec rfl) 1 (by decide)⟩

/-- The key set 0 is listed twice after it was written. A local write of an empty group key map
leaves the operational map as it was. A new fabric object without key sets gets no group key map.
When an endpoint is removed from all groups, a group that keeps endpoints may lose them. -/
theorem operational_groups_out_of_step :
    (∃ s : Server, exec Server.step singleFabric [.keySetWrite 1 (writtenKeySet 0 7)] = some s ∧
      s.keySetReadAllIndices 1 = [0, 0]) ∧ (∃ s : Server, exec Server.step singleFabric
        [.writeGroupKeyMap (some 1) [⟨5, 1, 1⟩], .writeGroupKeyMap none []] = some s ∧
      s.groupKeyMapOf 1 = [] ∧ (s.fabric 1).groups.groupKeyIdMap 5 = some 1) ∧
    (∃ s : Server, exec Server.step singleFabric [.writeGroupKeyMap (some 1) [⟨5, 1, 1⟩],
          .replaceFabric 1 ⟨⟨id, id⟩, 100, 100⟩] = some s ∧
      s.groupKeyMapOf 1 = [⟨5, 1, 1⟩] ∧ (s.fabric 1).groups.groupKeyIdMap 5 = none) ∧
    ∃ s : Server, exec Server.step singleFabric
        [.addEndpointForGroup 1 5 1 "first", .addEndpointForGroup 1 6 1 "second",
          .addEndpointForGroup 1 6 2 "second", .removeEndpoint 1 1 none] = some s ∧
      s.groupTableOf 1 = [⟨6, [2], "second", 1⟩] ∧ (s.fabric 1).groups.endpoints 6 = some [] :=
  ⟨⟨_, rfl, by decide⟩, ⟨_, rfl, by decide, by decide⟩, ⟨_, rfl, by decide, by decide⟩,
    ⟨_, rfl, by decide, by decide⟩⟩

end MatterJs.Groups
