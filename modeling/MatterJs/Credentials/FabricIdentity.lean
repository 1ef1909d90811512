import MatterJs.Credentials.Commands

/-! The fabrics in the table have distinct indices and identities. -/
namespace MatterJs.Credentials

open TransitionSystem IndexedList KeyIndex FabricManager Option Fabric

/-- What identifies a fabric: its root and its id. -/
def Fabric.identity (fabric : Fabric) : Nat × Nat := (fabric.rootPublicKey, fabric.fabricId)

structure Fabric.Sound (crypto : Crypto) (fabric : Fabric) : Prop where
  globalId : fabric.globalId = crypto.globalFabricId fabric.fabricId fabric.rootPublicKey
  lower : 1 ≤ fabric.fabricIndex
  upper : fabric.fabricIndex ≤ 254

structure FabricManager.Sound (crypto : Crypto) (manager : FabricManager) : Prop where
  nodup : manager.fabrics.entries.Nodup
  byFabricIndex :
    Indexes fabricIndex manager.fabrics.byFabricIndex manager.fabrics.entries
  byGlobalId : Indexes globalId manager.fabrics.byGlobalId manager.fabrics.entries
  fabrics : ∀ fabric ∈ manager.fabrics.entries, fabric.Sound crypto
  lower : 1 ≤ manager.nextFabricIndex
  upper : manager.nextFabricIndex ≤ 254

/-- A context that has added no fabric is associated with the one that the table has at its index,
up to an update that keeps the identity. -/
def Context.Sound (crypto : Crypto) (manager : FabricManager) (context : Context) : Prop :=
  context.fabricIndex = none ∨ context.forUpdateNoc = some true →
    ∀ associated, context.associatedFabric = some associated → associated.Sound crypto ∧
        ∀ fabric ∈ manager.fabrics.entries, fabric.fabricIndex = associated.fabricIndex →
          fabric.identity = associated.identity

structure Node.Sound (crypto : Crypto) (n : Node) : Prop where
  fabrics : n.fabrics.Sound crypto
  failsafe : ∀ context, n.failsafe = some context → context.Sound crypto n.fabrics

variable {cr : Crypto} {m : FabricManager} {fb : Fabric} {cn : Context}

variable {f' ass : Fabric} {m' : FabricManager} {b b' : FabricBuilder}
  {noc : Noc} {ic : Option Icac} {c' : Context} {n : Node} {sf : Nat}
  {ss : Session} {r : Except Failure Fabric}

theorem Fabric.Sound.globalId_eq (h : fb.Sound cr)
    (h' : f'.Sound cr) (hi : fb.identity = f'.identity) : fb.globalId = f'.globalId := by
  obtain ⟨he, hd⟩ := Prod.mk.inj hi
  rw [h.globalId, h'.globalId, he, hd]

/-- The table decides the identities through the global ids. -/
theorem FabricManager.Sound.eq_of_identity_eq (h : m.Sound cr) (hf : fb ∈ m.fabrics.entries)
    (hf' : f' ∈ m.fabrics.entries) (hi : fb.identity = f'.identity) : fb = f' :=
  h.byGlobalId.eq_of_key_eq hf hf'
    ((h.fabrics fb hf).globalId_eq (h.fabrics f' hf') hi)

theorem sound_new : new.Sound cr where
  nodup := List.nodup_nil
  byFabricIndex := indexes_nil
  byGlobalId := indexes_nil
  fabrics := by simp [new, FabricSet.empty]
  lower := Nat.le_refl 1
  upper := by simp [new]

theorem Context.Sound.of_subset (h : cn.Sound cr m)
    (hs : ∀ fb ∈ m'.fabrics.entries, fb ∈ m.fabrics.entries) : cn.Sound cr m' := by
  intro hc ass ha
  obtain ⟨hn, he⟩ := h hc ass ha
  exact ⟨hn, fun fb hf => he fb (hs fb hf)⟩

/-! ### The table -/

theorem mem_delete (hn : m.fabrics.entries.Nodup) :
    f' ∈ (m.deleteFabric fb).fabrics.entries ↔ f' ≠ fb ∧ f' ∈ m.fabrics.entries := by
  unfold deleteFabric FabricSet.delete
  split
  · exact hn.mem_erase_iff
  · rename_i ha
    constructor
    · intro hm
      exact ⟨fun he => ha (he ▸ hm), hm⟩
    · exact And.right

theorem FabricManager.Sound.deleteFabric (h : m.Sound cr) (fb : Fabric) :
    (m.deleteFabric fb).Sound cr := by
  by_cases hm : fb ∈ m.fabrics.entries
  · have hd : m.deleteFabric fb = { m with fabrics :=
        ⟨m.fabrics.entries.erase fb,
          KeyIndex.delete fabricIndex m.fabrics.byFabricIndex fb,
          KeyIndex.delete globalId m.fabrics.byGlobalId fb⟩ } := by
      simp [FabricManager.deleteFabric, FabricSet.delete, hm]
    rw [hd]
    exact {
      nodup := h.nodup.erase fb
      byFabricIndex := h.byFabricIndex.delete h.nodup hm
      byGlobalId := h.byGlobalId.delete h.nodup hm
      fabrics := fun f hf => h.fabrics f (List.mem_of_mem_erase hf)
      lower := h.lower
      upper := h.upper }
  · have hd : m.deleteFabric fb = m := by
      simp [FabricManager.deleteFabric, FabricSet.delete, hm]
    rw [hd]
    exact h

theorem mem_add : f' ∈ (m.fabrics.add fb).entries ↔ f' ∈ m.fabrics.entries ∨ f' = fb := by
  unfold FabricSet.add
  split
  · rename_i hm
    constructor
    · exact .inl
    · rintro (ho | rfl)
      · exact ho
      · exact hm
  · simp

theorem FabricManager.Sound.add (h : m.Sound cr) (hb : fb.Sound cr)
    (hi : m.fabrics.byFabricIndex fb.fabricIndex = none)
    (hg : m.fabrics.byGlobalId fb.globalId = none) :
    Sound cr { m with fabrics := m.fabrics.add fb } := by
  have ha : fb ∉ m.fabrics.entries :=
    fun hm => h.byFabricIndex.eq_none_iff.mp hi _ hm rfl
  have hd : m.fabrics.add fb =
      ⟨m.fabrics.entries ++ [fb], KeyIndex.add fabricIndex m.fabrics.byFabricIndex fb,
        KeyIndex.add globalId m.fabrics.byGlobalId fb⟩ := by
    simp [FabricSet.add, ha]
  rw [hd]
  exact {
    nodup := by
      refine List.Nodup.append h.nodup (List.nodup_singleton fb) ?_
      simpa using ha
    byFabricIndex := h.byFabricIndex.add hi
    byGlobalId := h.byGlobalId.add hg
    fabrics := by
      intro f hf
      rcases mem_concat_cases hf with hf | rfl
      · exact h.fabrics f hf
      · exact hb
    lower := h.lower
    upper := h.upper }

/-- The table after a fabric was put in the place of another one. -/
structure Replaces (manager manager' : FabricManager) (existing fabric : Fabric) : Prop where
  mem : existing ∈ manager.fabrics.entries
  index : existing.fabricIndex = fabric.fabricIndex
  entries : ∀ f, f ∈ manager'.fabrics.entries ↔
    f ≠ existing ∧ f ∈ manager.fabrics.entries ∨ f = fabric

/-- A fabric may take the place of one with its identity. -/
theorem FabricManager.Sound.replaceFabric (h : m.Sound cr) (hb : fb.Sound cr)
    (hid : ∀ f ∈ m.fabrics.entries, f.fabricIndex = fb.fabricIndex → f.identity = fb.identity)
    (hr : m.replaceFabric fb = .ok m') : m'.Sound cr ∧ ∃ e, Replaces m m' e fb := by
  simp only [FabricManager.replaceFabric] at hr
  split at hr
  · cases hr
  · rename_i e he
    obtain ⟨hm, hi⟩ := (h.byFabricIndex _ _).mp he
    split at hr
    · rename_i hq
      cases hr
      subst hq
      refine ⟨h, e, hm, rfl, ?_⟩
      intro f
      constructor
      · intro hf
        by_cases hfe : f = e
        · exact .inr hfe
        · exact .inl ⟨hfe, hf⟩
      · rintro (⟨-, hf⟩ | rfl)
        · exact hf
        · exact hm
    · cases hr
      have hd := h.deleteFabric e
      have hg : e.globalId = fb.globalId :=
        (h.fabrics e hm).globalId_eq hb (hid e hm hi)
      have hu : m.addOrUpdateFabricEntry fb =
          { m.deleteFabric e with
            fabrics := (m.deleteFabric e).fabrics.add fb } := by
        simp [addOrUpdateFabricEntry, he, FabricManager.deleteFabric]
      -- No fabric is left with the index or the global id of the one that was there.
      have hfree : ∀ f ∈ (m.deleteFabric e).fabrics.entries,
          f.fabricIndex ≠ fb.fabricIndex ∧ f.globalId ≠ fb.globalId := by
        intro f hf
        obtain ⟨hn, hf⟩ := (mem_delete h.nodup).mp hf
        constructor
        · intro hq
          exact hn (h.byFabricIndex.eq_of_key_eq hf hm (hq.trans hi.symm))
        · intro hq
          exact hn (h.byGlobalId.eq_of_key_eq hf hm (hq.trans hg.symm))
      rw [hu]
      refine ⟨hd.add hb ?_ ?_, e, hm, hi, ?_⟩
      · apply eq_none_iff_forall_not_mem.mpr
        intro f hf
        obtain ⟨hf, hy⟩ := (hd.byFabricIndex _ f).mp hf
        exact (hfree f hf).1 hy
      · apply eq_none_iff_forall_not_mem.mpr
        intro f hf
        obtain ⟨hf, hy⟩ := (hd.byGlobalId _ f).mp hf
        exact (hfree f hf).2 hy
      · intro f
        rw [mem_add, mem_delete h.nodup]

/-- An index that is allocated is free, and the table stays as it is. -/
theorem FabricManager.Sound.allocate {ts : Nat} {a : Option Nat} (h : m.Sound cr)
    (ha : m.allocate ts = (a, m')) : m'.Sound cr ∧ m'.fabrics = m.fabrics ∧ ∀ f, a = some f →
        1 ≤ f ∧ f ≤ 254 ∧ m.fabrics.byFabricIndex f = none := by
  induction ts generalizing m with
  | zero =>
    obtain ⟨rfl, rfl⟩ := ha
    exact ⟨h, rfl, by simp⟩
  | succ ts ih =>
    have hn : Sound cr { m with nextFabricIndex :=
        if m.nextFabricIndex + 1 > 254 then 1 else m.nextFabricIndex + 1 } :=
      { h with
        lower := by dsimp only; split <;> omega
        upper := by dsimp only; split <;> omega }
    simp only [allocate] at ha
    split at ha
    · rename_i hfree
      cases ha
      refine ⟨hn, rfl, ?_⟩
      intro f he
      cases he
      exact ⟨h.lower, h.upper, by simpa using hfree⟩
    · have hs := ih hn ha
      exact hs

/-! ### The builder -/

theorem setOperationalCert_eq_ok (h : b.setOperationalCert cr noc ic = .ok b') :
    b' = { b with
      operationalCert := some noc
      intermediateCACert := ic
      fabricId := some noc.fabricId
      nodeId := some noc.nodeId } := by
  unfold FabricBuilder.setOperationalCert at h
  split at h
  · cases h
  · split at h
    · cases h
    · split at h
      · exact (Except.ok.inj h).symm
      · cases h

section
variable {f : Nat} (h : b.build cr f = .ok (b', fb))
include h

theorem build_eq_ok :
    b' = { b with fabricIndex := some f } ∧ fb.fabricIndex = f ∧ b.fabricId = some fb.fabricId ∧
      b.rootCert = some fb.rootCert ∧
      fb.globalId = cr.globalFabricId fb.fabricId fb.rootPublicKey := by
  unfold FabricBuilder.build at h
  split at h
  · cases h
  · split at h
    · cases h
    · cases h
    · cases h
    · cases h
    · rename_i ht _ _ hi _
      cases h
      exact ⟨rfl, rfl, hi, ht, rfl⟩
    · cases h

theorem Fabric.Sound.of_build (hl : 1 ≤ f)
    (hu : f ≤ 254) : fb.Sound cr := by
  obtain ⟨-, rfl, -, -, hg⟩ := build_eq_ok h
  exact ⟨hg, hl, hu⟩

end

/-! ### The commands -/

/-- A context that is still associated with the fabric that the table has at its index. -/
theorem Context.Sound.retarget (h : cn.Sound cr m) (ha : c'.associatedFabric = cn.associatedFabric)
    (hc : cn.fabricIndex = none ∨ cn.forUpdateNoc = some true) : c'.Sound cr m :=
  fun _ ass he => h hc ass (ha ▸ he)

/-- A context that only its builder's certificates and its CSR differ in. -/
theorem Context.Sound.congr (h : cn.Sound cr m) (hi : c'.fabricIndex = cn.fabricIndex)
    (ha : c'.associatedFabric = cn.associatedFabric) (hu : c'.forUpdateNoc = some true →
      cn.fabricIndex = none ∨ cn.forUpdateNoc = some true) : c'.Sound cr m := by
  intro hc ass he
  refine h ?_ ass (ha ▸ he)
  rcases hc with hn | hf
  · exact .inl (hi ▸ hn)
  · exact hu hf

theorem refuseIf_eq_none {cd : Prop} [Decidable cd] {rs : Response} :
    refuseIf cd rs = none ↔ ¬ cd := by
  simp [refuseIf]

/-- An AddNOC that is not refused comes in a context that has neither built a fabric nor asked
for an update. -/
theorem refuseAddNoc_eq_none (h : n.refuseAddNoc sf ss cn = none) :
    cn.fabricIndex = none ∧ cn.forUpdateNoc ≠ some true := by
  simp only [Node.refuseAddNoc, or_eq_none_iff, refuseIf_eq_none] at h
  obtain ⟨hi, -, -, hu, -⟩ := h
  exact ⟨by simpa using hi, hu⟩

theorem refuseUpdateNoc_eq_none (h : Node.refuseUpdateNoc ss cn = none) :
    cn.fabricIndex = none ∧ cn.forUpdateNoc = some true := by
  simp only [Node.refuseUpdateNoc, or_eq_none_iff, refuseIf_eq_none] at h
  obtain ⟨hi, ha, -, hn, -⟩ := h
  refine ⟨by simpa using hi, ?_⟩
  cases hf : cn.forUpdateNoc with
  | none => exact absurd hf hn
  | some f =>
    cases f with
    | false => exact absurd hf ha
    | true => rfl

/-- A fabric whose global id the table does not have is added at a free index. -/
theorem addBuiltFabric_sound (h : m.Sound cr) (hc : cn.Sound cr m)
    (hd : cn.forUpdateNoc ≠ some true)
    (hfr : ∀ g, cn.builder.globalId cr = .ok g → m.fabrics.byGlobalId g = none)
    (hb : addBuiltFabric cr cn m = (r, c', m')) : m'.Sound cr ∧ c'.Sound cr m' := by
  unfold addBuiltFabric allocateFabricIndex at hb
  split at hb
  · rename_i ha
    obtain ⟨-, rfl, rfl⟩ := Prod.mk.inj hb
    obtain ⟨hs, hfb, -⟩ := h.allocate ha
    exact ⟨hs, hc.of_subset (fun f hf => hfb ▸ hf)⟩
  rename_i i l ha
  obtain ⟨hs, hfb, hi⟩ := h.allocate ha
  obtain ⟨hl, hp, hfree⟩ := hi i rfl
  split at hb
  · obtain ⟨-, rfl, rfl⟩ := Prod.mk.inj hb
    exact ⟨hs, hc.of_subset (fun f hf => hfb ▸ hf)⟩
  rename_i b fa hfa
  have hfs := Fabric.Sound.of_build hfa hl hp
  obtain ⟨hbl, rfl, hid, ht, hg⟩ := build_eq_ok hfa
  -- The context has added a fabric, and is no longer tied to the one it was armed for.
  have hc' : ∀ m, Context.Sound cr m
      { cn with builder := b, associatedFabric := some fa } := by
    intro m hcn
    exfalso
    rcases hcn with hn | hu
    · simp [Context.fabricIndex, hbl] at hn
    · exact hd hu
  have had : l.addFabric fa = .ok { l with fabrics := l.fabrics.add fa } := by
    simp [addFabric, addOrUpdateFabricEntry, hfb, hfree]
  simp only [had] at hb
  obtain ⟨-, rfl, rfl⟩ := hb
  refine ⟨hs.add hfs (hfb ▸ hfree) ?_, hc' _⟩
  rw [hfb, hg]
  apply hfr
  simp [FabricBuilder.globalId, hid, ht, rootPublicKey]

theorem buildFabric_sound {data : NocData} (h : m.Sound cr) (hc : cn.Sound cr m)
    (ha : cn.forUpdateNoc ≠ some true) (hb : buildFabric cr cn m data = (r, c', m')) :
    m'.Sound cr ∧ c'.Sound cr m' := by
  have hp : ∀ b : FabricBuilder, b.fabricIndex = cn.builder.fabricIndex →
      Context.Sound cr m { cn with builder := b } := by
    intro b hi
    exact hc.congr hi rfl (fun hu => absurd hu ha)
  unfold buildFabric at hb
  split at hb
  · obtain ⟨-, rfl, rfl⟩ := Prod.mk.inj hb
    exact ⟨h, hc⟩
  split at hb
  · obtain ⟨-, rfl, rfl⟩ := Prod.mk.inj hb
    exact ⟨h, hc⟩
  rename_i b hcr
  have hl := setOperationalCert_eq_ok hcr
  have hi : b.fabricIndex = cn.builder.fabricIndex := by rw [hl]
  split at hb
  · obtain ⟨-, rfl, rfl⟩ := Prod.mk.inj hb
    exact ⟨h, hp b hi⟩
  rename_i n hg
  split at hb
  · obtain ⟨-, rfl, rfl⟩ := Prod.mk.inj hb
    exact ⟨h, hp b hi⟩
  rename_i hf
  apply addBuiltFabric_sound h ?_ ?_ ?_ hb
  · exact hp _ hi
  · exact ha
  · intro globalId hg'
    obtain rfl : n = globalId := Except.ok.inj (hg.symm.trans hg')
    simpa using hf

namespace Node.Sound

/-- The state a command leaves, as one part of its answer. -/
theorem mk' {f : FabricManager} {n : Nat} (h : f.Sound cr)
    (hc : cn.Sound cr f) :
    Node.Sound cr ⟨f, some cn, n⟩ where
  fabrics := h
  failsafe := by
    intro c' hs
    cases hs
    exact hc

section
variable (h : n.Sound cr)
include h

theorem armFailSafe {n' : Node}
    (hm : n.armFailSafe ss = some n') : n'.Sound cr := by
  unfold Node.armFailSafe at hm
  split at hm
  · cases hm
  split at hm
  · cases hm
    refine mk' h.fabrics ?_
    intro _ ass ha
    cases ha
  · obtain ⟨a, hb, rfl⟩ := map_eq_some_iff.mp hm
    obtain ⟨he, -⟩ := (h.fabrics.byFabricIndex _ _).mp hb
    refine mk' h.fabrics ?_
    intro _ ass ha
    obtain rfl : a = ass := Option.some.inj ha
    refine ⟨h.fabrics.fabrics a he, ?_⟩
    intro f hf hi
    rw [h.fabrics.byFabricIndex.eq_of_key_eq hf he hi]

theorem addTrustedRootCertificate (root : Rcac) :
    (n.addTrustedRootCertificate cr root).2.Sound cr := by
  unfold Node.addTrustedRootCertificate
  split
  · exact h
  rename_i c hc
  split
  · exact h
  split
  · exact h
  split
  · exact h
  rename_i b ht
  refine mk' h.fabrics ((h.failsafe c hc).congr ?_ rfl .inr)
  unfold FabricBuilder.setRootCert at ht
  split at ht
  · rw [← Except.ok.inj ht]
    rfl
  · cases ht

theorem csrRequest (ss : Session) (i : Bool) : (n.csrRequest ss i).2.Sound cr := by
  unfold Node.csrRequest
  split
  · exact h
  split
  · exact h
  rename_i c hc
  split
  · exact h
  rename_i hi
  split
  · exact h
  refine mk' h.fabrics ((h.failsafe c hc).congr rfl rfl ?_)
  exact fun _ => .inl (by simpa using hi)

theorem addNoc (ss : Session) (data : NocData) (s : Bool) :
    (n.addNoc cr sf ss data s).2.Sound cr := by
  unfold Node.addNoc
  split
  · exact h
  rename_i c hc
  split
  · exact h
  rename_i ha
  obtain ⟨-, hd⟩ := refuseAddNoc_eq_none ha
  split
  · rename_i hb
    obtain ⟨hfb, hs⟩ :=
      buildFabric_sound h.fabrics (h.failsafe c hc) hd hb
    exact mk' hfb hs
  · rename_i hb
    obtain ⟨hfb, hs⟩ :=
      buildFabric_sound h.fabrics (h.failsafe c hc) hd hb
    split
    · exact mk' hfb hs
    · refine mk' (hfb.deleteFabric _) (hs.of_subset ?_)
      exact fun f hf => ((mem_delete hfb.nodup).mp hf).2

end

end Node.Sound

/-- What an update with a certificate of the same fabric builds. -/
theorem buildUpdatedFabric_spec (ha : cn.associatedFabric = some ass) (hs : ass.Sound cr)
    (hd : ass.fabricId = noc.fabricId) (hb : buildUpdatedFabric cr cn noc ic = (r, c')) :
    c'.associatedFabric = cn.associatedFabric ∧ c'.forUpdateNoc = cn.forUpdateNoc ∧ ∀ fb, r =
    .ok fb → fb.Sound cr ∧ fb.fabricIndex = ass.fabricIndex ∧ fb.identity = ass.identity := by
  unfold buildUpdatedFabric at hb
  rw [ha] at hb
  dsimp only at hb
  split at hb
  · cases hb
    exact ⟨rfl, rfl, by simp⟩
  rename_i b hc
  have hl := setOperationalCert_eq_ok hc
  split at hb
  · cases hb
    exact ⟨rfl, rfl, by simp⟩
  rename_i fb hfb
  cases hb
  refine ⟨rfl, rfl, ?_⟩
  intro f' he
  cases he
  obtain ⟨-, hi, hf, ht, -⟩ := build_eq_ok hfb
  refine ⟨Fabric.Sound.of_build hfb hs.lower hs.upper, hi, ?_⟩
  rw [hl] at hf ht
  have hid' : noc.fabricId = fb.fabricId := Option.some.inj hf
  have hr' : ass.rootCert = fb.rootCert := Option.some.inj ht
  rw [Fabric.identity, Fabric.identity, rootPublicKey, rootPublicKey, ← hr', ← hid', hd]

/-- The certificate of an update has the fabric id of the fabric that it updates. -/
def Node.keepsFabricId (n : Node) : Event → Bool
  | .updateNoc _ noc _ _ =>
    (n.failsafe.bind Context.associatedFabric).all (·.fabricId == noc.fabricId)
  | _ => true

/-- The fabrics at an index before and after have the same identity. -/
def SameIdentities (fabrics fabrics' : List Fabric) : Prop :=
  ∀ fabric ∈ fabrics, ∀ fabric' ∈ fabrics', fabric.fabricIndex = fabric'.fabricIndex →
    fabric.identity = fabric'.identity

theorem Node.Sound.sameIdentities (h : n.Sound cr) :
    SameIdentities n.fabrics.fabrics.entries n.fabrics.fabrics.entries := by
  intro f hf f' hf' hi
  rw [h.fabrics.byFabricIndex.eq_of_key_eq hf hf' hi]

/-- Only fabrics of the associated one's identity are new, and at its index. -/
theorem SameIdentities.of_associated (h : m.Sound cr)
    (he : ∀ fb ∈ m.fabrics.entries, fb.fabricIndex = ass.fabricIndex → fb.identity = ass.identity)
    (hn : ∀ fb ∈ m'.fabrics.entries, fb ∈ m.fabrics.entries ∨ fb.fabricIndex = ass.fabricIndex ∧
    fb.identity = ass.identity) : SameIdentities m.fabrics.entries m'.fabrics.entries := by
  intro fb hf f' hf' hi
  rcases hn f' hf' with ho | ⟨hi', hd⟩
  · rw [h.byFabricIndex.eq_of_key_eq hf ho hi]
  · rw [hd]
    exact he fb hf (hi.trans hi')

/-- A fabric of the associated one's identity replaces the one at its index. -/
theorem Context.Sound.replaceFabric (h : m.Sound cr) (hc : cn.Sound cr m)
    (hu : cn.forUpdateNoc = some true) (ha : cn.associatedFabric = some ass) (hb : fb.Sound cr)
    (hn : fb.fabricIndex = ass.fabricIndex) (hi : fb.identity = ass.identity)
    (hp : m.replaceFabric fb = .ok m') :
    m'.Sound cr ∧ cn.Sound cr m' ∧ ∀ f ∈ m'.fabrics.entries, f ∈ m.fabrics.entries ∨ f = fb := by
  obtain ⟨hs, he⟩ := hc (.inr hu) ass ha
  have hsm : ∀ f ∈ m.fabrics.entries, f.fabricIndex = fb.fabricIndex →
      f.identity = fb.identity := by
    intro f hf hq
    rw [hi]
    exact he f hf (hq.trans hn)
  obtain ⟨hm, e, hr⟩ := h.replaceFabric hb hsm hp
  refine ⟨hm, ?_, ?_⟩
  · intro _ associated' hq
    obtain rfl : ass = associated' := mem_unique ha hq
    refine ⟨hs, ?_⟩
    intro f hf hfn
    rcases (hr.entries f).mp hf with ⟨-, ho⟩ | rfl
    · exact he f ho hfn
    · exact hi
  · intro f hf
    exact ((hr.entries f).mp hf).imp And.right id

theorem Node.Sound.updateNoc {s : Bool} (h : n.Sound cr)
    (hp : n.keepsFabricId (.updateNoc ss noc ic s)) :
    (n.updateNoc cr ss noc ic s).2.Sound cr ∧ SameIdentities n.fabrics.fabrics.entries
        (n.updateNoc cr ss noc ic s).2.fabrics.fabrics.entries := by
  unfold Node.updateNoc
  split
  · exact ⟨h, h.sameIdentities⟩
  rename_i c hc
  split
  · exact ⟨h, h.sameIdentities⟩
  rename_i had
  obtain ⟨hn, hup⟩ := refuseUpdateNoc_eq_none had
  have hs := h.failsafe c hc
  cases ha : c.associatedFabric with
  | none =>
    have hb : buildUpdatedFabric cr c noc ic = (.error (.flow
        "No fabric associated with failsafe context, but we prepare an Fabric update."), c) := by
      simp [buildUpdatedFabric, ha]
    rw [hb]
    exact ⟨Node.Sound.mk' h.fabrics hs, h.sameIdentities⟩
  | some ass =>
    have has := (hs (.inl hn) ass ha).1
    have hd : ass.fabricId = noc.fabricId := by
      simpa [Node.keepsFabricId, hc, ha] using hp
    split
    · rename_i c' hb
      obtain ⟨hm, hfu, -⟩ :=
        buildUpdatedFabric_spec ha has hd hb
      exact ⟨.mk' h.fabrics (hs.retarget hm (.inl hn)), h.sameIdentities⟩
    rename_i u c' hb
    obtain ⟨hm, hfu, hsp⟩ :=
      buildUpdatedFabric_spec ha has hd hb
    obtain ⟨hfa, hin, hi⟩ := hsp u rfl
    have hs' := hs.retarget hm (.inl hn)
    split
    · exact ⟨.mk' h.fabrics hs', h.sameIdentities⟩
    rename_i fr hrp
    obtain ⟨hfb, hs'', hw⟩ := hs'.replaceFabric h.fabrics
      (hfu.trans hup) (hm.trans ha) hfa hin hi hrp
    have he := (hs (.inl hn) ass ha).2
    have hu : ∀ f ∈ fr.fabrics.entries, f ∈ n.fabrics.fabrics.entries ∨
        f.fabricIndex = ass.fabricIndex ∧ f.identity = ass.identity := by
      intro f hf
      rcases hw f hf with ho | rfl
      · exact .inl ho
      · exact .inr ⟨hin, hi⟩
    have hsu := SameIdentities.of_associated h.fabrics he hu
    split
    · exact ⟨.mk' hfb hs'', hsu⟩
    · dsimp only
      rw [hm.trans ha, elim_some]
      cases hrs : fr.replaceFabric ass with
      | error a => exact ⟨.mk' hfb hs'', hsu⟩
      | ok e =>
        obtain ⟨hr, hc', hn'⟩ := hs''.replaceFabric hfb
          (hfu.trans hup) (hm.trans ha) has rfl rfl hrs
        refine ⟨.mk' hr hc', SameIdentities.of_associated h.fabrics he ?_⟩
        intro f hf
        rcases hn' f hf with ho | rfl
        · exact hu f ho
        · exact .inr ⟨rfl, rfl⟩

theorem revoke_sound (h : m.Sound cr) : (Node.revoke cn m).Sound cr := by
  unfold Node.revoke
  cases cn.associatedFabric with
  | none => exact h
  | some ass => exact h.deleteFabric ass

theorem rollbackFabrics_sound (h : m.Sound cr) (hc : cn.Sound cr m) :
    (Node.rollbackFabrics cn m).Sound cr := by
  unfold Node.rollbackFabrics
  by_cases hu : cn.forUpdateNoc = some true
  · simp only [hu, ne_eq, not_true_eq_false, and_false, if_false]
    cases ha : cn.associatedFabric with
    | none => exact h
    | some ass =>
      rw [elim_some]
      cases hrs : m.replaceFabric ass with
      | error f => exact h
      | ok e =>
        have hs := (hc (.inr hu) ass ha).1
        exact (hc.replaceFabric h hu ha hs rfl rfl hrs).1
  · have hr : (if cn.fabricIndex.isSome ∧ cn.forUpdateNoc ≠ some true then
        Node.revoke cn m else m).Sound cr := by
      split
      · exact revoke_sound h
      · exact h
    generalize (if cn.fabricIndex.isSome ∧ cn.forUpdateNoc ≠ some true then
      Node.revoke cn m else m) = revoked at hr ⊢
    rw [if_neg hu]
    split
    · exact revoke_sound hr
    · exact hr

theorem Node.Sound.removeFabric (h : n.Sound cr) (i : Nat) : (n.removeFabric i).2.Sound cr := by
  unfold Node.removeFabric
  split
  · exact h
  · refine ⟨h.fabrics.deleteFabric _, ?_⟩
    intro c hc
    refine (h.failsafe c hc).of_subset ?_
    exact fun f hf => ((mem_delete h.fabrics.nodup).mp hf).2

theorem Node.Sound.step {n' : Node} {e : Event} (h : n.Sound cr) (he : n.keepsFabricId e)
    (ht : n.step cr sf e = some n') : n'.Sound cr := by
  cases e with
  | armFailSafe s => exact h.armFailSafe ht
  | addTrustedRootCertificate root =>
    cases ht
    exact h.addTrustedRootCertificate root
  | csrRequest s i =>
    cases ht
    exact h.csrRequest s i
  | addNoc s data c =>
    cases ht
    exact h.addNoc s data c
  | updateNoc s noc ic c =>
    cases ht
    exact (h.updateNoc he).1
  | commissioningComplete =>
    obtain ⟨cn, -, rfl⟩ := map_eq_some_iff.mp ht
    exact ⟨h.fabrics, by simp⟩
  | rollback =>
    obtain ⟨cn, hc, rfl⟩ := map_eq_some_iff.mp ht
    exact ⟨rollbackFabrics_sound h.fabrics (h.failsafe cn hc), by simp⟩
  | removeFabric f =>
    cases ht
    exact h.removeFabric f

/-- In every run whose updates keep the fabric id, the fabrics in the table differ in their index
and in their identity, the indices are those of fabrics, and an update changes no identity. -/
theorem fabric_identities_are_kept (crypto : Crypto) (supportedFabrics : Nat)
    (events : List Event) (node : Node) (h : Run (guarded (Node.step crypto supportedFabrics)
      (·.keepsFabricId ·)) .new events node) :
    node.fabrics.fabrics.entries.Pairwise (fun fabric fabric' =>
        fabric.fabricIndex ≠ fabric'.fabricIndex ∧ fabric.identity ≠ fabric'.identity) ∧
      (∀ fabric ∈ node.fabrics.fabrics.entries, 1 ≤ fabric.fabricIndex ∧ fabric.fabricIndex ≤ 254) ∧
      ∀ session noc icac completes node',
        guarded (Node.step crypto supportedFabrics) (·.keepsFabricId ·)
          node (.updateNoc session noc icac completes) = some node' →
        SameIdentities node.fabrics.fabrics.entries node'.fabrics.fabrics.entries := by
  have hs : node.Sound crypto := by
    refine guarded_invariant (I := Node.Sound crypto) ?_ h ⟨sound_new, by simp [Node.new]⟩
    intro node event node' he ht hn
    exact hn.step he ht
  refine ⟨?_, ?_, ?_⟩
  · refine hs.fabrics.nodup.imp_of_mem ?_
    intro fabric fabric' hf hf' hne
    constructor
    · intro hin
      exact hne (hs.fabrics.byFabricIndex.eq_of_key_eq hf hf' hin)
    · intro hi
      exact hne (hs.fabrics.eq_of_identity_eq hf hf' hi)
  · intro fabric hf
    have := hs.fabrics.fabrics fabric hf
    exact ⟨this.lower, this.upper⟩
  · intro session noc icac completes node' hu
    obtain ⟨he, ht⟩ := guarded_eq_some.mp hu
    cases ht
    exact (hs.updateNoc he).2

def acceptingCrypto : Crypto where
  publicKey keyPair := keyPair
  globalFabricId fabricId publicKey := 1000 * publicKey + fabricId
  verifyRcac _ := true
  verifyIcac _ _ := true
  verifyNoc _ _ _ := true

variable (fabricId keyPair : Nat)

/-- A commissioner adds a fabric of the root with the public key 7. -/
def commissioning : List Event :=
  [.armFailSafe ⟨1, true, none⟩, .addTrustedRootCertificate ⟨7, none⟩,
    .csrRequest ⟨1, true, none⟩ false,
    .addNoc ⟨1, true, none⟩ ⟨⟨21, fabricId, keyPair⟩, none, 0, 11, 0xFFF1⟩ true,
    .commissioningComplete]

/-- An administrator of the first fabric updates its certificate. -/
def updating : List Event :=
  [.armFailSafe ⟨2, false, some 1⟩, .csrRequest ⟨2, false, some 1⟩ true,
    .updateNoc ⟨2, false, some 1⟩ ⟨22, fabricId, keyPair⟩ none true]

/-- Two fabrics of one root, the first of them with an updated certificate. -/
theorem fabric_identities_are_kept_updated :
    ∃ node : Node, node.fabrics.fabrics.entries.map Fabric.identity = [(7, 6), (7, 5)] ∧
      node.fabrics.fabrics.entries.Pairwise (fun fabric fabric' =>
        fabric.fabricIndex ≠ fabric'.fabricIndex ∧ fabric.identity ≠ fabric'.identity) :=
  ⟨_, by rfl, (fabric_identities_are_kept acceptingCrypto 5
    (commissioning 5 0 ++ commissioning 6 1 ++ updating 5 2) _ (run_of_exec rfl)).1⟩

/-- An update with a certificate for another fabric of the root leaves two fabrics of one
identity. -/
theorem updateNoc_changes_fabricId : ∃ node, exec (Node.step acceptingCrypto 5) .new
        (commissioning 5 0 ++ commissioning 6 1 ++ updating 6 2) = some node ∧
      node.fabrics.fabrics.entries.map (fun fabric => (fabric.fabricIndex, fabric.identity)) =
        [(2, (7, 6)), (1, (7, 6))] :=
  ⟨_, rfl, rfl⟩

end MatterJs.Credentials
