import MatterJs.Foundation.IndexedList
import MatterJs.Groups.GroupOperations

/-! Removing an endpoint from its groups. The loop goes from the last entry of the group table to
the first, so an entry that it drops moves those behind it, which it has visited before. -/
namespace MatterJs.Groups

open EntryMap List Function GroupInfo

namespace Removal

variable (fabricIndex endpointId : Nat) (groupId : Option Nat)

def kept (entry : GroupInfo) : Option GroupInfo :=
  if !concerns fabricIndex endpointId groupId entry then some entry
  else if entry.endpoints = [endpointId] then none
  else some { entry with endpoints := entry.endpoints.filter (· != endpointId) }

/-- What happens to the operational endpoints of the group of an entry. -/
def updateOf (entry : GroupInfo) (i : Nat) : EndpointUpdate :=
  if entry.endpoints = [endpointId] then .delete else .entry i

variable (es : List GroupInfo)

theorem step_append (et : GroupInfo) (rest : List GroupInfo)
    (u : Nat → Option EndpointUpdate) (e : Bool) :
    step fabricIndex endpointId groupId ⟨es ++ [et] ++ rest, u, e⟩ es.length =
      ⟨es ++ ((kept fabricIndex endpointId groupId et).toList ++ rest),
        if concerns fabricIndex endpointId groupId et then
          update u et.groupId (some (updateOf endpointId et es.length)) else u,
        concerns fabricIndex endpointId groupId et || e⟩ := by
  unfold step
  by_cases hc : concerns fabricIndex endpointId groupId et
  · by_cases hs : et.endpoints = [endpointId]
    · simp [kept, updateOf, hc, hs, eraseIdx_append_of_length_le]
    · simp [kept, updateOf, hc, hs]
  · simp [kept, hc]

/-- What the loop makes of the entries it has not visited yet. -/
theorem loop_spec (rest : List GroupInfo) (u : Nat → Option EndpointUpdate) (x : Bool) :
    let r := loop fabricIndex endpointId groupId es.length ⟨es ++ rest, u, x⟩
    r.groupTable = es.filterMap (kept fabricIndex endpointId groupId) ++ rest ∧
      (∀ g, (∀ e ∈ es, concerns fabricIndex endpointId groupId e →
        e.groupId ≠ g) → r.updates g = u g) ∧
      ∀ i e, es[i]? = some e → concerns fabricIndex endpointId groupId e →
        (∀ j o, es[j]? = some o → concerns fabricIndex endpointId groupId o →
            o.groupId = e.groupId → j = i) →
        r.updates e.groupId = some (updateOf endpointId e i) := by
  induction es using List.reverseRecOn generalizing rest u x with
  | nil => exact ⟨rfl, fun _ _ => rfl, by simp⟩
  | append_singleton es last ih =>
    intro r
    have hr : r = loop fabricIndex endpointId groupId es.length
        (step fabricIndex endpointId groupId ⟨es ++ [last] ++ rest, u, x⟩ es.length) := by
      simp [r, loop]
    rw [step_append] at hr
    obtain ⟨ht, ho, hu⟩ := ih
      ((kept fabricIndex endpointId groupId last).toList ++ rest)
      (if concerns fabricIndex endpointId groupId last then
        update u last.groupId (some (updateOf endpointId last es.length))
      else u)
      (concerns fabricIndex endpointId groupId last || x)
    rw [← hr] at ht ho hu
    refine ⟨?_, ?_, ?_⟩
    · rw [ht, filterMap_append, append_assoc]
      cases hp : kept fabricIndex endpointId groupId last <;> simp [hp]
    · intro g hg
      rw [ho g (fun e he => hg e (mem_append_left _ he))]
      split
      · rename_i hc
        have hne := hg last (by simp) hc
        exact update_of_ne hne.symm _ _
      · rfl
    · intro i e he hc hn
      rcases IndexedList.getElem?_concat_cases he with hl | ⟨rfl, rfl⟩
      · apply hu i e hl hc
        intro j o hj
        exact hn j o (IndexedList.getElem?_concat_left hj)
      · -- The entries before the last one are of other groups.
        rw [ho e.groupId]
        · rw [if_pos hc, update_self]
        · intro o hm ho' hg
          obtain ⟨j, hj⟩ := List.getElem?_of_mem hm
          have hlt := (List.getElem?_eq_some_iff.mp hj).1
          have hs := hn j o (by rw [List.getElem?_append_left hlt, hj]) ho' hg
          omega

variable {fabricIndex endpointId groupId} {e l : GroupInfo} {g : List GroupInfo}

theorem fabricIndex_of_concerns (h : concerns fabricIndex endpointId groupId e) :
    e.fabricIndex = fabricIndex := by
  simp only [concerns, Bool.and_eq_true, beq_iff_eq] at h
  exact h.1.1

theorem kept_of_not_concerns (h : ¬ concerns fabricIndex endpointId groupId e) :
    kept fabricIndex endpointId groupId e = some e := by
  simp [kept, h]

theorem kept_spec (h : kept fabricIndex endpointId groupId e = some l) :
    l.key = e.key ∧ (e.endpoints.Nodup → l.endpoints.Nodup) := by
  unfold kept at h
  split at h
  · cases h
    exact ⟨rfl, id⟩
  · split at h
    · cases h
    · cases h
      exact ⟨rfl, fun hn => hn.filter _⟩

/-- An entry that is left has the key of one entry only. -/
theorem mem_filterMap_kept (hn : (g.map key).Nodup) (he : e ∈ g) (hy : l.key = e.key) :
    l ∈ g.filterMap (kept fabricIndex endpointId groupId) ↔
      kept fabricIndex endpointId groupId e = some l := by
  rw [mem_filterMap]
  constructor
  · rintro ⟨other, ho, hp⟩
    have hs := inj_on_of_nodup_map hn ho he ((kept_spec hp).1.symm.trans hy)
    rw [← hs]
    exact hp
  · intro hp
    exact ⟨e, he, hp⟩

variable (fabricIndex endpointId groupId) in
/-- No group loses its only endpoint whose entry stands before that of a group that keeps others. -/
def ordered (groupTable : List GroupInfo) : Bool :=
  (groupTable.filter (concerns fabricIndex endpointId groupId)).Pairwise (fun entry later =>
    entry.endpoints = [endpointId] → later.endpoints = [endpointId])

/-- Nothing is dropped before an entry that keeps endpoints. -/
theorem isSome_kept (h : ordered fabricIndex endpointId groupId g) {i : Nat} (hi : g[i]? = some e)
    (hc : concerns fabricIndex endpointId groupId e) (hs : e.endpoints ≠ [endpointId]) : ∀ j < i,
    ∀ o, g[j]? = some o → (kept fabricIndex endpointId groupId o).isSome := by
  intro j hj o ho
  by_cases hc' : concerns fabricIndex endpointId groupId o
  · have hp := List.pairwise_filter.mp (of_decide_eq_true h)
    obtain ⟨ht, hq⟩ := List.getElem?_eq_some_iff.mp hi
    obtain ⟨hl, he⟩ := List.getElem?_eq_some_iff.mp ho
    have hb := List.pairwise_iff_getElem.mp hp j i hl ht hj
    rw [hq, he] at hb
    have hs' : o.endpoints ≠ [endpointId] := fun heq =>
      hs (hb hc' hc heq)
    simp [kept, hc', hs']
  · rw [kept_of_not_concerns hc']
    rfl

/-- The operational endpoints are those of the entries that are left. -/
theorem represents_loop {m : Nat → Option (List Nat)} (hd : (g.map key).Nodup)
    (hor : ordered fabricIndex endpointId groupId g)
    (h : Represents (·.groupId) (·.endpoints) m (g.filter (·.fabricIndex == fabricIndex))) :
    let r := loop fabricIndex endpointId groupId g.length
      ⟨g, fun _ => none, false⟩
    Represents (·.groupId) (·.endpoints) (r.endpoints m)
      (r.groupTable.filter (·.fabricIndex == fabricIndex)) := by
  intro r
  obtain ⟨ht, ho, hu⟩ :=
    loop_spec fabricIndex endpointId groupId g [] (fun _ => none) false
  rw [append_nil, append_nil] at ht
  rw [append_nil] at ho hu
  intro group endpoints
  have hf : (∃ l ∈ r.groupTable.filter (·.fabricIndex == fabricIndex),
      l.groupId = group ∧ l.endpoints = endpoints) ↔
      ∃ l ∈ g.filterMap (kept fabricIndex endpointId groupId),
        l.key = (fabricIndex, group) ∧ l.endpoints = endpoints := by
    simp [r, ht, key, and_assoc]
  rw [hf]
  by_cases hg : ∃ e ∈ g, concerns fabricIndex endpointId groupId e ∧ e.groupId = group
  · obtain ⟨e, he, hc, rfl⟩ := hg
    have hy : e.key = (fabricIndex, e.groupId) := by
      rw [← fabricIndex_of_concerns hc]
      rfl
    obtain ⟨i, hi⟩ := List.getElem?_of_mem he
    have hup : r.updates e.groupId = some (updateOf endpointId e i) := by
      apply hu i e hi hc
      intro j other hj hc' ha
      have hkey' : other.key = e.key := by
        rw [hy, ← ha, ← fabricIndex_of_concerns hc']
        rfl
      obtain rfl := inj_on_of_nodup_map hd (mem_of_getElem? hj) he hkey'
      exact IndexedList.index_unique hd.of_map hj hi
    have hx : (∃ l ∈ g.filterMap (kept fabricIndex endpointId groupId),
        l.key = (fabricIndex, e.groupId) ∧ l.endpoints = endpoints) ↔
        ∃ l, kept fabricIndex endpointId groupId e = some l ∧ l.endpoints = endpoints := by
      constructor
      · rintro ⟨l, hm, hl, hen⟩
        exact ⟨l, (mem_filterMap_kept hd he (hl.trans hy.symm)).mp hm, hen⟩
      · rintro ⟨l, hp, hen⟩
        have hl := (kept_spec hp).1
        exact ⟨l, (mem_filterMap_kept hd he hl).mpr hp, hl.trans hy, hen⟩
    rw [hx]
    by_cases hs : e.endpoints = [endpointId]
    · simp [Removal.endpoints, hup, updateOf, kept, hc, hs]
    · obtain ⟨l, hp⟩ : ∃ l, kept fabricIndex endpointId groupId e = some l :=
        ⟨_, by simp [kept, hc, hs]; rfl⟩
      have hin : r.groupTable[i]? = some l := by
        rw [ht]
        exact getElem?_filterMap_of_kept hi (isSome_kept hor hi hc hs) hp
      simp [Removal.endpoints, hup, updateOf, hs, hin, hp]
  · have hn : ∀ e ∈ g, concerns fabricIndex endpointId groupId e → e.groupId ≠ group := by
      intro e he hc ha
      exact hg ⟨e, he, hc, ha⟩
    have hun : r.endpoints m group = m group := by
      unfold Removal.endpoints
      rw [ho group hn]
    rw [hun, h group endpoints]
    constructor
    · rintro ⟨e, he, rfl, rfl⟩
      obtain ⟨he, hin⟩ := mem_filter.mp he
      have hc : ¬ concerns fabricIndex endpointId groupId e := fun hc =>
        hn e he hc rfl
      refine ⟨e, mem_filterMap.mpr ⟨e, he, kept_of_not_concerns hc⟩, ?_, rfl⟩
      rw [← beq_iff_eq.mp hin]
      rfl
    · rintro ⟨l, hm, hy, rfl⟩
      obtain ⟨e, he, hp⟩ := mem_filterMap.mp hm
      obtain ⟨hin, hid⟩ : e.fabricIndex = fabricIndex ∧ e.groupId = group := by
        simpa [key] using (kept_spec hp).1.symm.trans hy
      have hc : ¬ concerns fabricIndex endpointId groupId e := fun hc =>
        hn e he hc hid
      rw [kept_of_not_concerns hc] at hp
      obtain rfl := Option.some.inj hp
      exact ⟨e, mem_filter.mpr ⟨he, by simp [hin]⟩, hid, rfl⟩

end Removal

namespace Server

variable {s : Server} {f i : Nat} {gi : Option Nat}

theorem Mirror.removeEndpoint (h : Mirror s) (hf : f ∈ s.fabrics)
    (ho : Removal.ordered f i gi s.state.groupTable) :
    Mirror ((s.removeEndpoint f i gi).2.commit (some f) s) := by
  have hd := h.valid.groupTable_nodup
  have hm := h.mirrored f hf
  obtain ⟨het, -, -⟩ := ClusterState.checkGroupTable_eq_ok.mp h.valid.groupTable
  obtain ⟨ht, -, -⟩ :=
    Removal.loop_spec f i gi s.state.groupTable [] (fun _ => none) false
  rw [append_nil, append_nil] at ht
  apply h.changeTable
  case hs => rfl
  case hf => rfl
  case hfb =>
    intro other hn
    exact update_of_ne hn _ _
  case hv =>
    rw [ht, ClusterState.checkGroupTable_eq_ok]
    refine ⟨?_, ?_, by simp⟩
    · intro l hl
      obtain ⟨e, he, hp⟩ := mem_filterMap.mp hl
      obtain ⟨hy, hed⟩ := Removal.kept_spec hp
      obtain ⟨hg, hen⟩ := het e he
      refine ⟨?_, hed hen⟩
      rw [show l.groupId = e.groupId from congrArg Prod.snd hy]
      exact hg
    · exact hd.sublist (map_filterMap_sublist (fun _ _ hp => (Removal.kept_spec hp).1))
  case hself =>
    rw [Server.removeEndpoint, fabric_update_self]
    exact hm.setEndpoints (Removal.represents_loop hd ho hm.endpoints)
  case ho =>
    intro e hn
    rw [ht, mem_filterMap]
    constructor
    · rintro ⟨other, hot, hp⟩
      have hi : e.fabricIndex = other.fabricIndex :=
        congrArg Prod.fst (Removal.kept_spec hp).1
      have hc : ¬ Removal.concerns f i gi other :=
        fun hc => hn (hi.trans (Removal.fabricIndex_of_concerns hc))
      rw [Removal.kept_of_not_concerns hc] at hp
      rw [← Option.some.inj hp]
      exact hot
    · intro he
      exact ⟨e, he, Removal.kept_of_not_concerns (fun hc =>
        hn (Removal.fabricIndex_of_concerns hc))⟩

end Server

end MatterJs.Groups
