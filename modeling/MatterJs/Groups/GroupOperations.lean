import MatterJs.Groups.GroupMirror

/-! Every operation of the group key management keeps the operational groups of all fabrics in step
with the persisted lists. -/
namespace MatterJs.Groups

open TransitionSystem EntryMap List StoredKeySet ClusterState

namespace Server

variable {s t b : Server} {fi o : Nat}

section Frames

variable (f : FabricGroups → FabricGroups)

@[simp] theorem state_updateGroups : (s.updateGroups fi f).state = s.state := rfl

@[simp] theorem fabrics_updateGroups : (s.updateGroups fi f).fabrics = s.fabrics := rfl

@[simp] theorem groupKeySetsOf_updateGroups :
    (s.updateGroups fi f).groupKeySetsOf o = s.groupKeySetsOf o := rfl

@[simp] theorem groupKeyMapOf_updateGroups :
    (s.updateGroups fi f).groupKeyMapOf o = s.groupKeyMapOf o := rfl

@[simp] theorem groupTableOf_updateGroups :
    (s.updateGroups fi f).groupTableOf o = s.groupTableOf o := rfl

@[simp] theorem fabric_update_self :
    (s.updateGroups fi f).fabric fi = { s.fabric fi with groups := f (s.fabric fi).groups } :=
  Function.update_self _ _ _

theorem fabric_update_of_ne (h : o ≠ fi) : (s.updateGroups fi f).fabric o = s.fabric o :=
  Function.update_of_ne h _ _

end Frames

/-- The persisted lists are valid, and every fabric mirrors them. -/
structure Mirror (s : Server) : Prop where
  valid : s.state.Valid
  known : ∀ entry ∈ s.state.groupKeySets, entry.fabricIndex ∈ s.fabrics
  mirrored : ∀ fabricIndex ∈ s.fabrics, s.Mirrored fabricIndex

theorem mirror_new (fs : List Nat) (i : Nat → FabricIdentity) (m g : Nat) :
    Mirror (new fs i m g) where
  valid := ⟨nodup_nil, by simp [new], rfl, rfl⟩
  known := by simp [new]
  mirrored := fun fi _ => Mirrors.create (i fi)

theorem groupKeyMapOf_nodup (h : s.state.Valid) (fi : Nat) :
    ((s.groupKeyMapOf fi).map (·.groupId)).Nodup :=
  nodup_map_filter h.groupKeyMap_nodup fi

theorem groupTableOf_nodup (h : s.state.Valid) (fi : Nat) :
    ((s.groupTableOf fi).map (·.groupId)).Nodup :=
  nodup_map_filter h.groupTable_nodup fi

/-! ### Commits -/

theorem commit_of_valid {actor : Option Nat} (h : s.state.Valid) : s.commit actor b =
      if s.state.groupKeyMap = b.state.groupKeyMap then s else s.updateGroupKeyMap actor := by
  have hv : s.state.validate b.state = .ok () := by
    unfold validate
    rw [h.groupKeyMap, h.groupTable]
    simp
  rw [commit, hv]

variable {m : List GroupKeyMapEntry} {r : GroupKeySet}

theorem mirrored_restore (hv : s.state.Valid)
    (h : Mirrors (s.fabric fi) (s.groupKeySetsOf fi) m (s.groupTableOf fi)) :
    (s.restoreGroupKeyMap fi).Mirrored fi := by
  have hset := h.setGroupKeyIdMap (groupKeyMapOf_nodup hv fi)
  unfold Mirrored restoreGroupKeyMap
  rw [fabric_update_self]
  exact hset

theorem mirrored_update_of_ne {f : FabricGroups → FabricGroups} (hne : o ≠ fi)
    (h : s.Mirrored o) : (s.updateGroups fi f).Mirrored o := by
  unfold Mirrored
  rw [fabric_update_of_ne f hne]
  exact h

/-- The commit of a remote actor. Up to the group key map of its fabric, everything is mirrored. -/
theorem Mirror.commit (hv : s.state.Valid)
    (hk : ∀ e ∈ s.state.groupKeySets, e.fabricIndex ∈ s.fabrics)
    (hself : Mirrors (s.fabric fi) (s.groupKeySetsOf fi) (b.groupKeyMapOf fi) (s.groupTableOf fi))
    (hot : ∀ o ∈ s.fabrics, o ≠ fi → s.Mirrored o) : Mirror (s.commit (some fi) b) := by
  rw [commit_of_valid hv]
  split
  · rename_i hsame
    refine ⟨hv, hk, ?_⟩
    intro o ho
    by_cases hne : o = fi
    · subst hne
      have hmap : s.groupKeyMapOf o = b.groupKeyMapOf o := by
        simp [groupKeyMapOf, hsame]
      unfold Mirrored
      rw [hmap]
      exact hself
    · exact hot o ho hne
  · refine ⟨hv, hk, ?_⟩
    intro o ho
    by_cases hne : o = fi
    · subst hne
      exact mirrored_restore hv hself
    · unfold updateGroupKeyMap restoreGroupKeyMap
      exact mirrored_update_of_ne hne (hot o ho hne)

/-! ### Key sets -/

theorem storeKeySet_spec {et : StoredKeySet} {g : List StoredKeySet}
    (hnd : (s.state.groupKeySets.map key).Nodup) (h : s.storeKeySet et = .ok g) :
    (g.map key).Nodup ∧ ∀ st, st ∈ g ↔ (st ∈ s.state.groupKeySets ∧ st.key ≠ et.key) ∨ st = et := by
  have hi : ∀ st : StoredKeySet, (st.fabricIndex == et.fabricIndex &&
      st.groupKeySetId == et.groupKeySetId) ↔ st.key = et.key := by
    simp [key]
  unfold storeKeySet at h
  dsimp only at h
  split at h
  · rename_i hany
    cases h
    obtain ⟨found, hfn, hkey⟩ := any_eq_true.mp hany
    constructor
    · rw [map_updateFirst]
      · exact hnd
      · exact fun st hs => ((hi st).mp hs).symm
    · intro st
      rw [mem_updateFirst hi hnd]
      constructor
      · rintro (hold | ⟨-, -, -, rfl⟩)
        · exact .inl hold
        · exact .inr rfl
      · rintro (hold | rfl)
        · exact .inl hold
        · exact .inr ⟨found, hfn, (hi found).mp hkey, rfl⟩
  · rename_i hany
    have hf : ∀ st ∈ s.state.groupKeySets, st.key ≠ et.key := by
      intro st hs hkey
      exact hany (any_eq_true.mpr ⟨st, hs, (hi st).mpr hkey⟩)
    split at h
    · cases h
    · cases h
      constructor
      · rw [map_append, map_singleton]
        refine hnd.append (nodup_singleton _) ?_
        intro key hold hnew
        obtain ⟨st, hs, rfl⟩ := mem_map.mp hold
        exact hf st hs (mem_singleton.mp hnew)
      · intro st
        rw [mem_append, mem_singleton]
        constructor
        · rintro (hold | hnew)
          · exact .inl ⟨hold, hf st hold⟩
          · exact .inr hnew
        · rintro (⟨hold, -⟩ | hnew)
          · exact .inl hold
          · exact .inr hnew

theorem keySetWrite_eq_ok (h : s.keySetWrite fi r = .ok t) :
    ∃ (e : StoredKeySet) (g : List StoredKeySet) (keySet : OperationalKeySet),
      e.fabricIndex = fi ∧ s.storeKeySet e = .ok g ∧
      e.derive (s.fabric fi).derivation = some keySet ∧
      t = { s with state.groupKeySets := g }.setFromGroupKeySet fi keySet := by
  unfold keySetWrite at h
  split at h
  · cases h
  · split at h
    · cases h
    · cases h
    · rename_i g keySet hs hd
      exact ⟨⟨r.disableSlots, fi⟩, g, keySet, rfl, hs, hd, (Except.ok.inj h).symm⟩

theorem Mirror.keySetWrite (h : Mirror s)
    (hf : fi ∈ s.fabrics) (ht : s.keySetWrite fi r = .ok t) : Mirror (t.commit (some fi) s) := by
  obtain ⟨et, g, k, hi, hst, hd, rfl⟩ := keySetWrite_eq_ok ht
  obtain ⟨hnd, hmem⟩ := storeKeySet_spec h.valid.groupKeySets hst
  apply Mirror.commit
  case hv =>
    refine ⟨hnd, ?_, h.valid.groupKeyMap, h.valid.groupTable⟩
    intro st hs
    rcases (hmem st).mp hs with ⟨hold, -⟩ | rfl
    · exact h.valid.derivable st hold
    · obtain ⟨e, hkey, -⟩ := Option.map_eq_some_iff.mp hd
      exact Option.isSome_iff_exists.mpr ⟨e, hkey⟩
  case hk =>
    intro st hs
    rcases (hmem st).mp hs with ⟨hold, -⟩ | rfl
    · exact h.known st hold
    · rw [hi]
      exact hf
  case hself =>
    have hs : ∀ st, st ∈ g.filter (·.fabricIndex == fi) ↔
        (st ∈ s.groupKeySetsOf fi ∧ st.groupKeySetId ≠ et.groupKeySetId) ∨ st = et := by
      simp only [mem_filter, hmem, groupKeySetsOf, key]
      grind
    unfold setFromGroupKeySet
    rw [fabric_update_self]
    exact (h.mirrored fi hf).setKeySet hd hs _
  case hot =>
    intro o ho hne
    apply mirrored_update_of_ne hne
    refine (h.mirrored o ho).congr ?_ (fun _ => Iff.rfl) (fun _ => Iff.rfl)
    simp only [mem_filter, hmem, groupKeySetsOf, key, beq_iff_eq]
    grind

theorem keySetRemove_eq_ok {g : Nat} (h : s.keySetRemove fi g = .ok t) :
    g ≠ 0 ∧ t = ({ s with state := { s.state with
      groupKeySets := s.state.groupKeySets.eraseP (fun e =>
        e.fabricIndex == fi && e.groupKeySetId == g)
      groupKeyMap := s.state.groupKeyMap.filter (fun e =>
        e.fabricIndex ≠ fi || e.groupKeySetId ≠ g) } } :
      Server).updateGroups fi (·.removeGroupKeySet g) := by
  unfold keySetRemove at h
  dsimp only at h
  split at h
  · cases h
  · rename_i hzero
    split at h
    · cases h
    · exact ⟨hzero, (Except.ok.inj h).symm⟩

theorem Mirror.keySetRemove {g : Nat} (h : Mirror s)
    (hf : fi ∈ s.fabrics) (ht : s.keySetRemove fi g = .ok t) : Mirror (t.commit (some fi) s) := by
  obtain ⟨hzero, rfl⟩ := keySetRemove_eq_ok ht
  have hmem : ∀ st, st ∈ s.state.groupKeySets.eraseP (fun e =>
      e.fabricIndex == fi && e.groupKeySetId == g) ↔
      st ∈ s.state.groupKeySets ∧ st.key ≠ (fi, g) := by
    intro st
    exact mem_eraseP (by simp [key]) h.valid.groupKeySets
  apply Mirror.commit
  case hv =>
    refine ⟨?_, ?_, ?_, h.valid.groupTable⟩
    · exact h.valid.groupKeySets.sublist ((eraseP_sublist).map _)
    · intro st hs
      exact h.valid.derivable st ((hmem st).mp hs).1
    · exact validateGroupKeyMap_filter h.valid.groupKeyMap rfl rfl
  case hk =>
    intro st hs
    exact h.known st ((hmem st).mp hs).1
  case hself =>
    rw [fabric_update_self]
    apply (h.mirrored fi hf).removeGroupKeySet hzero
    simp only [groupKeySetsOf, state_updateGroups, mem_filter, hmem, key]
    grind
  case hot =>
    intro o ho hne
    apply mirrored_update_of_ne hne
    refine (h.mirrored o ho).congr ?_ ?_ (fun _ => Iff.rfl)
    · intro st
      simp only [groupKeySetsOf, mem_filter, hmem, key]
      grind
    · intro e
      simp only [groupKeyMapOf]
      grind

/-! ### The group key map -/

/-- The check of a write looks at nothing but the new group key map. -/
theorem validate_groupKeyMap (m : List GroupKeyMapEntry) :
    ({ s.state with groupKeyMap := m } : ClusterState).validate s.state =
      if m = s.state.groupKeyMap then .ok ()
      else ({ s.state with groupKeyMap := m } : ClusterState).validateGroupKeyMap := by
  unfold validate
  by_cases hsame : m = s.state.groupKeyMap
  · simp [hsame]
  · simp only [hsame, if_false]
    cases ({ s.state with groupKeyMap := m } : ClusterState).validateGroupKeyMap <;> simp

/-- A group key map that is refused is not written. -/
theorem writeGroupKeyMap_cases (h : Mirror s) (m : List GroupKeyMapEntry)
    (actor : Option Nat) : { s with state.groupKeyMap := m }.commit actor s = s ∨
      ({ s.state with groupKeyMap := m } : ClusterState).Valid := by
  cases hv : ({ s.state with groupKeyMap := m } : ClusterState).validate s.state with
  | error error =>
    left
    unfold commit
    simp [hv]
  | ok _ =>
    right
    refine ⟨h.valid.groupKeySets, h.valid.derivable, ?_, h.valid.groupTable⟩
    rw [validate_groupKeyMap] at hv
    split at hv
    · rename_i hsame
      rw [hsame]
      exact h.valid.groupKeyMap
    · exact hv

theorem Mirror.writeRemote (h : Mirror s) (hw : s.writes m (some fi)) :
    Mirror ({ s with state.groupKeyMap := m }.commit (some fi) s) := by
  rcases writeGroupKeyMap_cases h m (some fi) with heq | hv
  · rw [heq]
    exact h
  · obtain ⟨hf, ho⟩ := Bool.and_eq_true_iff.mp hw
    apply Mirror.commit
    case hv => exact hv
    case hk => exact h.known
    case hself => exact h.mirrored fi (contains_iff_mem.mp hf)
    case hot =>
      intro o hot hne
      refine (h.mirrored o hot).congr (fun _ => Iff.rfl) ?_ (fun _ => Iff.rfl)
      intro e
      have he := congrArg (e ∈ ·) (beq_iff_eq.mp ho)
      simp only [groupKeyMapOf]
      grind

/-- A local write leaves every fabric that has entries at least one. -/
def keepsEntries (s : Server) (m : List GroupKeyMapEntry) : Bool :=
  s.fabrics.all (fun fabricIndex =>
    (s.groupKeyMapOf fabricIndex).isEmpty || m.any (·.fabricIndex == fabricIndex))

theorem Mirror.writeLocal (h : Mirror s) (hkeeps : s.keepsEntries m) :
    Mirror ({ s with state.groupKeyMap := m }.commit none s) := by
  rcases writeGroupKeyMap_cases h m none with heq | hv
  · rw [heq]
    exact h
  · rw [commit_of_valid hv]
    split
    · rename_i hsame
      obtain rfl : m = s.state.groupKeyMap := hsame
      exact h
    · refine ⟨hv, h.known, ?_⟩
      intro o ho
      unfold Mirrored updateGroupKeyMap
      dsimp only
      split
      · exact mirrored_restore hv (h.mirrored o ho)
      · rename_i hnone
        -- Without entries in the new map the fabric had none before.
        have he : ({ s with state.groupKeyMap := m } : Server).groupKeyMapOf o = [] := by
          by_contra hne
          exact hnone ⟨ho, hne⟩
        have hb : s.groupKeyMapOf o = [] := by
          have hkept := all_eq_true.mp hkeeps o ho
          rcases Bool.or_eq_true_iff.mp hkept with hnil | hany
          · exact isEmpty_iff.mp hnil
          · obtain ⟨e, hen, hi⟩ := any_eq_true.mp hany
            have hmem : e ∈ ({ s with state.groupKeyMap := m } :
                Server).groupKeyMapOf o := mem_filter.mpr ⟨hen, hi⟩
            rw [he] at hmem
            cases hmem
        have hm := h.mirrored o ho
        unfold Mirrored at hm
        rw [hb, ← he] at hm
        exact hm

/-! ### Adding an endpoint -/

variable {gt : List GroupInfo}

/-- The group table changes in entries of one fabric, and the operational endpoints with them. -/
theorem Mirror.changeTable (h : Mirror s)
    (hs : t.state = { s.state with groupTable := gt }) (hf : t.fabrics = s.fabrics)
    (hfb : ∀ o, o ≠ fi → t.fabric o = s.fabric o)
    (hv : checkGroupTable [] gt = .ok ())
    (hself : Mirrors (t.fabric fi) (s.groupKeySetsOf fi)
      (s.groupKeyMapOf fi) (gt.filter (·.fabricIndex == fi)))
    (ho : ∀ e : GroupInfo, e.fabricIndex ≠ fi → (e ∈ gt ↔ e ∈ s.state.groupTable)) :
    Mirror (t.commit (some fi) s) := by
  obtain ⟨state, fabrics, fabric⟩ := t
  obtain rfl : state = { s.state with groupTable := gt } := hs
  obtain rfl : fabrics = s.fabrics := hf
  apply Mirror.commit
  case hv => exact ⟨h.valid.groupKeySets, h.valid.derivable, h.valid.groupKeyMap, hv⟩
  case hk => exact h.known
  case hself => exact hself
  case hot =>
    intro o hot hne
    have hm := h.mirrored o hot
    unfold Mirrored at hm ⊢
    rw [hfb o hne]
    refine hm.congr (fun _ => Iff.rfl) (fun _ => Iff.rfl) ?_
    intro e
    simp only [groupTableOf, mem_filter, beq_iff_eq]
    constructor
    · rintro ⟨he, rfl⟩
      exact ⟨(ho e hne).mp he, rfl⟩
    · rintro ⟨he, rfl⟩
      exact ⟨(ho e hne).mpr he, rfl⟩

/-- An entry of the group table is added, or replaces the one of its group, and its endpoints are
set on the fabric. -/
theorem Mirror.setEntry (h : Mirror s) (e : GroupInfo) (hfb : e.fabricIndex ∈ s.fabrics)
    (hs : t.state = { s.state with groupTable := gt }) (hf : t.fabrics = s.fabrics)
    (ho : ∀ o, o ≠ e.fabricIndex → t.fabric o = s.fabric o)
    (hob : t.fabric e.fabricIndex = { s.fabric e.fabricIndex with
      groups := (s.fabric e.fabricIndex).groups.setEndpoints e.groupId e.endpoints })
    (hkeys : (gt.map GroupInfo.key).Nodup) (hg : e.groupId ≠ 0)
    (he : e.endpoints.Nodup)
    (hmem : ∀ o, o ∈ gt ↔ (o ∈ s.state.groupTable ∧ o.key ≠ e.key) ∨ o = e) :
    Mirror (t.commit (some e.fabricIndex) s) := by
  apply h.changeTable hs hf ho
  case hv =>
    refine checkGroupTable_eq_ok.mpr ⟨?_, hkeys, by simp⟩
    intro o hot
    rcases (hmem o).mp hot with ⟨hold, -⟩ | rfl
    · exact (checkGroupTable_eq_ok.mp h.valid.groupTable).1 o hold
    · exact ⟨hg, he⟩
  case hself =>
    have hm := h.mirrored e.fabricIndex hfb
    rw [hob]
    apply hm.setEndpoints
    apply hm.endpoints.set
    simp only [groupTableOf, mem_filter, hmem, GroupInfo.key]
    grind
  case ho =>
    intro o hne
    rw [hmem o]
    constructor
    · rintro (⟨hold, -⟩ | rfl)
      · exact hold
      · exact absurd rfl hne
    · intro hold
      exact .inl ⟨hold, fun hkey => hne (congrArg Prod.fst hkey)⟩

/-- An entry is replaced by one of its group. -/
theorem mem_updateFirst_entry {et : GroupInfo} {f : GroupInfo → GroupInfo}
    (h : s.state.Valid) (he : et ∈ s.state.groupTable) (hkey : ∀ o, (f o).key = o.key) :
    let gt := updateFirst (fun o => o.fabricIndex == et.fabricIndex &&
      o.groupId == et.groupId) f s.state.groupTable
    (gt.map GroupInfo.key).Nodup ∧ ∀ o, o ∈ gt ↔
      (o ∈ s.state.groupTable ∧ o.key ≠ (f et).key) ∨ o = f et := by
  have hnd := h.groupTable_nodup
  constructor
  · rw [map_updateFirst (fun o _ => hkey o)]
    exact hnd
  · intro o
    have hi : ∀ o : GroupInfo, (o.fabricIndex == et.fabricIndex &&
        o.groupId == et.groupId) ↔ o.key = et.key := by
      simp [GroupInfo.key]
    rw [hkey, mem_updateFirst hi hnd]
    constructor
    · rintro (hold | ⟨found, hf, hsame, rfl⟩)
      · exact .inl hold
      · rw [inj_on_of_nodup_map hnd hf he hsame]
        exact .inr rfl
    · rintro (hold | rfl)
      · exact .inl hold
      · exact .inr ⟨et, he, rfl, rfl⟩

theorem Mirror.addEndpointForGroup {gi i : Nat} {groupName : String} (h : Mirror s)
    (hf : fi ∈ s.fabrics) (hg : gi ≠ 0) (ht : s.addEndpointForGroup fi gi i groupName = .ok t) :
    Mirror (t.commit (some fi) s) := by
  unfold Server.addEndpointForGroup at ht
  dsimp only at ht
  split at ht
  · rename_i e hfind
    have he := mem_of_find?_eq_some hfind
    obtain ⟨hi, hid⟩ : e.fabricIndex = fi ∧ e.groupId = gi := by
      simpa using find?_some hfind
    subst hi hid
    obtain ⟨-, hen⟩ :=
      (checkGroupTable_eq_ok.mp h.valid.groupTable).1 e he
    split at ht
    · cases ht
      obtain ⟨hkeys, hmem⟩ := mem_updateFirst_entry h.valid he
        (f := fun e => { e with groupName }) (fun _ => rfl)
      refine h.setEntry { e with groupName } hf rfl rfl (fun _ _ => rfl) ?_
        hkeys hg hen hmem
      have hset : (s.fabric e.fabricIndex).groups.endpoints e.groupId = some e.endpoints := by
        refine ((h.mirrored e.fabricIndex hf).endpoints _ _).mpr ⟨e, ?_, rfl, rfl⟩
        exact mem_filter.mpr ⟨he, by simp⟩
      simp [FabricGroups.setEndpoints, ← hset]
    · rename_i hnew
      cases ht
      obtain ⟨hkeys, hmem⟩ := mem_updateFirst_entry h.valid he
        (f := fun o => { o with endpoints := e.endpoints ++ [i], groupName })
        (fun _ => rfl)
      refine h.setEntry
        { e with endpoints := e.endpoints ++ [i], groupName } hf rfl rfl ?_ ?_ hkeys hg ?_ hmem
      · intro o hne
        exact fabric_update_of_ne _ hne
      · exact fabric_update_self _
      · refine hen.append (nodup_singleton _) ?_
        intro o hold ho
        obtain rfl := mem_singleton.mp ho
        exact hnew hold
  · rename_i hfind
    have hfr : ∀ o ∈ s.state.groupTable, o.key ≠ (fi, gi) := by
      intro o ho hkey
      have hnone := find?_eq_none.mp hfind o ho
      simp only [GroupInfo.key, Prod.mk.injEq] at hkey
      simp [hkey.1, hkey.2] at hnone
    split at ht
    · cases ht
    · cases ht
      refine h.setEntry ⟨gi, [i], groupName, fi⟩ hf rfl rfl
        ?_ ?_ ?_ hg (nodup_singleton _) ?_
      · intro o hne
        exact fabric_update_of_ne _ hne
      · exact fabric_update_self _
      · rw [map_append, map_singleton]
        refine h.valid.groupTable_nodup.append (nodup_singleton _) ?_
        intro key hold hnew
        obtain ⟨o, ho, rfl⟩ := mem_map.mp hold
        exact hfr o ho (mem_singleton.mp hnew)
      · intro o
        rw [mem_append, mem_singleton]
        constructor
        · rintro (hold | hnew)
          · exact .inl ⟨hold, hfr o hold⟩
          · exact .inr hnew
        · rintro (⟨hold, -⟩ | hnew)
          · exact .inl hold
          · exact .inr hnew

end Server

end MatterJs.Groups
