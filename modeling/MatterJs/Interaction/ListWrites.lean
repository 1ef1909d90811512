import MatterJs.Interaction.WriteSequence

/-!
# Lists written in one interaction

The list that the commits of an interaction have established is the one that is stored, and an
addition finds such a list.
-/
namespace MatterJs.WriteInteraction

open MatterJs.Action StateExcept TransitionSystem List Option

/-- The list that the commits of an interaction have established at a location. -/
def established {α : Type} (commits : List (Commit α)) (location : AttributeLocation) :
    Option (List α) :=
  commits.foldl
    (fun list commit =>
      if commit.location = location then
        match commit.change with
        | .assign _ => none
        | .replaceAll items => some items
        | .add item => list.map (· ++ [item])
      else list)
    none

theorem established_append {α : Type} (c : List (Commit α)) (m : Commit α)
    (lc : AttributeLocation) :
    established (c ++ [m]) lc =
      if m.location = lc then
        match m.change with
        | .assign _ => none
        | .replaceAll items => some items
        | .add item => (established c lc).map (· ++ [item])
      else established c lc := by
  simp [established]

/-! ### The invariant of an interaction -/

/-- The lists that the commits have established are the ones stored, and each addition was made to
such a list. -/
structure Sound {α : Type} (node : Node) (session : Session) (store : Store α) : Prop where
  lists : ∀ location type list, attributeAt node location = some type → type.isArray →
    established store.commits location = some list →
    content session type (store.state.values location) = list ∧
      ∃ entries, store.state.values location = .list entries
  adds : ∀ earlier commit later item, store.commits = earlier ++ commit :: later →
    commit.change = .add item → ∃ type, attributeAt node commit.location = some type ∧
      established earlier commit.location = some (content session type commit.oldValue)

/-- The list of the attribute processed last has been established, if the interaction adds to it. -/
def Remembered {α : Type} (node : Node) (added : List AttributeLocation)
    (previous : Option AttributeLocation) (store : Store α) : Prop :=
  ∀ location type, previous = some location → location ∈ added →
    attributeAt node location = some type → type.isArray →
    (established store.commits location).isSome

/-- What holds before an entry is processed. -/
structure Kept {α : Type} (node : Node) (session : Session) (added : List AttributeLocation)
    (previous : Option AttributeLocation) (store : Store α) : Prop where
  sound : Sound node session store
  remembered : Remembered node added previous store

/-- A write that may be committed: one that adds to a list finds it established. -/
structure Committable {α : Type} (node : Node) (session : Session) (store : Store α)
    (location : AttributeLocation) (type : AttributeType) (change : Change α)
    (value : Value α) : Prop where
  typed : attributeAt node location = some type
  applied : applyChange session type (store.state.values location) change = .ok value
  scalar : ∀ scalar, change = .assign scalar → type.isArray = false
  array : ∀ item, change = .add item → type.isArray
  established : ∀ item, change = .add item → (established store.commits location).isSome

variable {δ α : Type} {b : Behavior δ α} {n : Node} {u : Session} {d : List AttributeLocation}
  {p : Option AttributeLocation} {σ : Store α} {l o : AttributeLocation} {τ : AttributeType}
  {c : Change α} {v : Value α} {path : AttributePath} {e : AttributeData δ}

theorem committable_of_attempt {i : ListIndex} {data : δ} (ht : attributeAt n l = some τ)
    (hat : attempt b u τ σ.state l i data = .ok (c, v)) (hadd : i = .null → τ.isArray →
    (established σ.commits l).isSome) : Committable n u σ l τ c v := by
  obtain ⟨hd, hp⟩ := attempt_eq_ok hat
  refine ⟨ht, hp, ?_, ?_, ?_⟩
  all_goals
    intro item hc
    subst hc
    rcases decodeChange_eq_ok hd with ⟨hi, ha, _, hc⟩ |
      ⟨hi, ha, _, hc⟩ | ⟨hi, ha, _, hc⟩ <;> first
    | exact hadd hi ha
    | exact ha
    | cases hc

variable [DecidableEq α]

theorem established_commit_of_ne (h : l ≠ o) :
    established (σ.commit l c v).commits o = established σ.commits o := by
  simp [Store.commit, established_append, h]

theorem values_commit_of_ne (h : o ≠ l) :
    (σ.commit l c v).state.values o = σ.state.values o := by
  simp [Store.commit, AttributeState.write, h]

@[simp] theorem values_commit_self : (σ.commit l c v).state.values l = v := by
  simp [Store.commit, AttributeState.write]

theorem Sound.commit (h : Sound n u σ) (hc : Committable n u σ l τ c v) :
    Sound n u (σ.commit l c v) where
  lists := by
    intro o otherType list ht har hl
    by_cases ho : l = o
    · subst ho
      obtain rfl : τ = otherType := mem_unique hc.typed ht
      simp only [Store.commit, established_append, if_true] at hl
      rw [values_commit_self]
      cases c with
      | assign s => simp [hc.scalar s rfl] at har
      | replaceAll items =>
        cases hl
        refine ⟨content_replaceAll hc.applied, ?_⟩
        have ha := hc.applied
        simp only [applyChange] at ha
        split at ha <;> exact ⟨_, (Except.ok.inj ha).symm⟩
      | add item =>
        obtain ⟨a, hb, rfl⟩ := map_eq_some_iff.mp hl
        obtain ⟨hn, m, he⟩ := h.lists l τ a ht har hb
        refine ⟨by rw [content_add hc.applied, hn], ?_⟩
        have ha := hc.applied
        simp only [he] at ha
        exact ⟨_, (Except.ok.inj ha).symm⟩
    · rw [established_commit_of_ne ho] at hl
      rw [values_commit_of_ne (Ne.symm ho)]
      exact h.lists o otherType list ht har hl
  adds := by
    intro f commit later item hs hd
    rcases eq_nil_or_concat later with rfl | ⟨rest, a, rfl⟩
    · obtain ⟨rfl, hm⟩ := append_inj' hs rfl
      obtain rfl := (List.cons.inj hm).1
      refine ⟨τ, hc.typed, ?_⟩
      obtain ⟨list, hl⟩ := isSome_iff_exists.mp (hc.established item hd)
      rw [hl, (h.lists l τ list hc.typed (hc.array item hd) hl).1]
    · have hs' : σ.commits ++ [⟨l, c, σ.state.values l⟩] = (f ++ commit :: rest) ++ [a] := by
        simpa [Store.commit] using hs
      exact h.adds f commit rest item (append_inj' hs' rfl).1 hd

theorem Remembered.commit (h : Remembered n d p σ) (hc : Committable n u σ l τ c v) :
    Remembered n d p (σ.commit l c v) := by
  intro o otherType hp hd ht ha
  have hb := h o otherType hp hd ht ha
  by_cases ho : l = o
  · subst ho
    obtain rfl : τ = otherType := mem_unique hc.typed ht
    simp only [Store.commit, established_append, if_true]
    cases c with
    | assign s => simp [hc.scalar s rfl] at ha
    | replaceAll items => rfl
    | add item => simpa using hb
  · rw [established_commit_of_ne ho]
    exact hb

variable (b) in
/-- A write leaves the invariant in place, whether or not it is committed. -/
theorem writeValue_invariant (path : AttributePath) (data : δ) (h : Kept n u d p σ)
    (ht : attributeAt n l = some τ) (hadd : path.listIndex = .null → τ.isArray →
      (established σ.commits l).isSome) : Kept n u d p
      (outcome (writeValue b u τ l path data) σ).2 := by
  unfold writeValue
  split
  · exact h
  · next hi =>
    rw [outcome_get_bind]
    split
    · next c v ha =>
      have hc := committable_of_attempt ht ha hadd
      exact ⟨h.sound.commit hc, h.remembered.commit hc⟩
    · exact h
    · exact h

theorem outcome_writeValue {data : δ}
    (h : attempt b u τ σ.state l path.listIndex data = .ok (c, v)) :
    outcome (writeValue b u τ l path data) σ =
      (.ok (asStatus path .success none), σ.commit l c v) := by
  unfold writeValue
  split
  · next index hi =>
    rw [hi] at h
    cases (attempt_eq_ok h).1
  · rw [outcome_get_bind, h]
    rfl

theorem remembered_of_replace {i : ListIndex} {data : δ} (hi : i ≠ .null)
    (ht : attributeAt n l = some τ) (h : attempt b u τ σ.state l i data = .ok (c, v)) :
    Remembered n d (some l) (σ.commit l c v) := by
  intro o otherType ho _ hy ha
  cases ho
  obtain rfl : τ = otherType := mem_unique ht hy
  simp only [Store.commit, established_append, if_true]
  rcases decodeChange_eq_ok (attempt_eq_ok h).1 with ⟨_, _, items, rfl⟩ | ⟨_, hs, _⟩ |
    ⟨hn, _⟩
  · rfl
  · simp [hs] at ha
  · exact absurd hn hi

theorem attributeAt_of_wildcard {m : Endpoint} (he : m ∈ n.endpoints)
    (h : writeEndpointForWildcard u m path = .ok (some (l, τ))) :
    attributeAt n l = some τ := by
  unfold writeEndpointForWildcard at h
  split at h
  · obtain ⟨a, hc, h⟩ := bind_eq_some_iff.mp (Except.ok.inj h)
    obtain ⟨found, hf, h⟩ := map_eq_some_iff.mp h
    cases h
    have hf := (filter_eq_some_iff.mp hf).1
    have hi := (lookup_eq_some hc).2
    have ht := (lookup_eq_some hf).2
    have hp : n.endpoint m.id = some m := lookup_of_mem n.distinct he
    simp only [attributeAt, Node.cluster, hp, bind_some]
    rw [hi, hc, bind_some, ht, hf]
  · cases h

variable (b) in
theorem writeEndpoints_invariant {s : List Endpoint}
    (hi : e.path.listIndex ≠ .null) (hen : ∀ m ∈ s, m ∈ n.endpoints)
    (h : Kept n u d p σ) : Kept n u d p (outcome (writeEndpoints b u e s) σ).2 := by
  induction s generalizing σ with
  | nil => exact h
  | cons m s ih =>
    obtain ⟨hd, hs⟩ := forall_mem_cons.mp hen
    unfold writeEndpoints
    split
    · exact h
    · exact ih hs h
    · next o τ hwr =>
      have hw := writeValue_invariant b
        { e.path with
          endpointId := some o.endpointId
          clusterId := some o.clusterId
          attributeId := some o.attributeId } e.data h
        (attributeAt_of_wildcard hd hwr) (fun hn => absurd hn hi)
      rw [outcome_bind]
      split
      · next t next hok =>
        rw [hok] at hw
        have ho := ih hs hw
        rw [outcome_bind]
        split
        · next st f hok' => rwa [hok'] at ho
        · next a f he => rwa [he] at ho
      · next a next he => rwa [he] at hw

theorem wildcardEndpoints_subset {s : List Endpoint}
    (h : wildcardEndpoints n u path = .ok s) : ∀ m ∈ s, m ∈ n.endpoints := by
  intro m hm
  unfold wildcardEndpoints at h
  split at h
  · cases h
    cases hm
  split at h
  · cases h
    unfold groupEndpoints at hm
    split at hm
    · exact (mem_filter.mp hm).1
    · exact hm
  split at h
  · cases h
  · cases h
    exact (lookup_eq_some (mem_toList.mp hm)).1

variable (b u σ) in
theorem writeEndpoints_of_no_cluster (s : List Endpoint)
    (h : e.path.clusterId = none) : (outcome (writeEndpoints b u e s) σ).2 = σ := by
  cases s with
  | nil => rfl
  | cons m s => simp [writeEndpoints, writeEndpointForWildcard, h]

/-! ### Entries -/

/-- The attributes whose lists are added to. -/
def addedTo {δ : Type} (entries : List (AttributeData δ)) : List AttributeLocation :=
  entries.filterMap (fun entry =>
    if entry.path.listIndex = .null then entry.path.concrete else none)

/-- A write of a list that the interaction adds to, other than an addition, passes the checks, is
decoded and is not refused by the cluster. -/
def replacesAdded {δ α : Type} [DecidableEq α] (behavior : Behavior δ α) (node : Node)
    (session : Session) (added : List AttributeLocation)
    (progress : Option AttributeLocation × Store α) (entry : AttributeData δ) : Bool :=
  match entry.path.concrete with
  | none => true
  | some location =>
    entry.path.listIndex == .null || !added.contains location ||
      match writeConcrete node session entry.path.nodeId location entry.dataVersion
        (progress.2.state.versions location.endpointId location.clusterId) with
      | .error _ => false
      | .ok type =>
        (attempt behavior session type progress.2.state location entry.path.listIndex
          entry.data).isOk

/-- The lists that the entry adds to are among those given. -/
def AddsTo {δ : Type} (added : List AttributeLocation) (entry : AttributeData δ) : Prop :=
  ∀ location, entry.path.listIndex = .null → entry.path.concrete = some location → location ∈ added

theorem sameAttribute_of_not_busy (hi : path.listIndex = .null) (hb : ¬ isBusy p path) :
    path.endpointId = p.map (·.endpointId) ∧ path.clusterId = p.map (·.clusterId) ∧
      path.attributeId = p.map (·.attributeId) := by
  simp only [isBusy, sameAttribute, hi, beq_self_eq_true, Bool.true_and, Bool.not_eq_true',
    Bool.not_eq_false, Bool.and_eq_true, beq_iff_eq] at hb
  exact ⟨hb.1.1.symm, hb.1.2.symm, hb.2.symm⟩

theorem previous_of_add (hp : path.concrete = some l)
    (hi : path.listIndex = .null) (hb : ¬ isBusy p path) : p = some l := by
  obtain ⟨he, hc, ha⟩ := sameAttribute_of_not_busy hi hb
  rw [AttributePath.concrete, he, hc, ha] at hp
  cases p with
  | none => cases hp
  | some a => exact hp

theorem clusterId_of_wildcard_add (hp : path.concrete = none)
    (hi : path.listIndex = .null) (hb : ¬ isBusy p path) : path.clusterId = none := by
  obtain ⟨he, hc, ha⟩ := sameAttribute_of_not_busy hi hb
  rw [AttributePath.concrete, he, hc, ha] at hp
  cases p with
  | none => exact hc
  | some a => cases hp

variable (b) in
theorem processEntry_wildcard {s : List Endpoint} (hp : e.path.concrete = none)
    (hb : ¬ isBusy p e.path) (he : wildcardEndpoints n u e.path = .ok s)
    (h : Kept n u d p σ) : Kept n u d p (outcome (writeEndpoints b u e s) σ).2 := by
  by_cases hi : e.path.listIndex = .null
  · have hc := clusterId_of_wildcard_add hp hi hb
    rw [writeEndpoints_of_no_cluster b u σ s hc]
    exact h
  · exact writeEndpoints_invariant b hi (wildcardEndpoints_subset he) h

/-- A refused write of a list leaves nothing that an addition could follow. -/
theorem remembered_of_refused {s : Status}
    (hp : e.path.concrete = some l) (hb : ¬ isBusy p e.path)
    (hf : writeConcrete n u e.path.nodeId l e.dataVersion
      (σ.state.versions l.endpointId l.clusterId) = .error s)
    (hrp : replacesAdded b n u d (p, σ) e) (hr : Remembered n d p σ) :
    Remembered n d (some l) σ := by
  by_cases hi : e.path.listIndex = .null
  · exact previous_of_add hp hi hb ▸ hr
  · intro o τ ho hm
    cases ho
    simp [replacesAdded, hp, hi, hm, hf] at hrp

theorem remembered_of_written (ht : e.path.concrete = some l) (hb : ¬ isBusy p e.path)
    (hp : writeConcrete n u e.path.nodeId l e.dataVersion
      (σ.state.versions l.endpointId l.clusterId) = .ok τ)
    (hr : replacesAdded b n u d (p, σ) e) (hrm : Remembered n d p
      (outcome (writeValue b u τ l e.path e.data) σ).2) : Remembered n d (some l)
      (outcome (writeValue b u τ l e.path e.data) σ).2 := by
  by_cases hi : e.path.listIndex = .null
  · exact previous_of_add ht hi hb ▸ hrm
  · intro _ _ ho hm
    cases ho
    simp only [replacesAdded, ht, hp, Bool.or_eq_true, beq_iff_eq,
      hi, false_or, contains_eq_mem, hm] at hr
    rcases ha : attempt b u τ σ.state l e.path.listIndex
      e.data with failure | ⟨_, _⟩
    · simp [ha, Except.toBool] at hr
    · rw [outcome_writeValue ha]
      exact remembered_of_replace hi (writeConcrete_eq_ok.mp hp).2.1 ha _ _ rfl
        hm

/-- What an entry that is not refused as busy leaves. Without an error it is the list of its own
attribute that the next entry finds remembered. -/
theorem processEntry_invariant (hb : ¬ isBusy p e.path) (ha : AddsTo d e)
    (hr : replacesAdded b n u d (p, σ) e) (h : Kept n u d p σ) :
    Sound n u (outcome (processEntry b n u e) σ).2 ∧
      ∀ s final, outcome (processEntry b n u e) σ = (.ok s, final) →
        Remembered n d (nextPrevious p e.path) final := by
  unfold processEntry
  split
  · exact ⟨h.sound, by simp⟩
  split
  · next ht =>
    have hn : nextPrevious p e.path = p := by
      simp [nextPrevious, ht]
    rw [hn]
    split
    · exact ⟨h.sound, by simp⟩
    · next m he =>
      have h' := processEntry_wildcard b ht hb he h
      refine ⟨h'.sound, ?_⟩
      intro s final ho
      rw [ho] at h'
      exact h'.remembered
  · next l ht =>
    have hn : nextPrevious p e.path = some l := by
      simp [nextPrevious, ht, hb]
    rw [hn]
    split
    · exact ⟨h.sound, by simp⟩
    rw [outcome_get_bind]
    split
    · next t hrf =>
      refine ⟨h.sound, ?_⟩
      intro s final ho
      obtain rfl := (Prod.mk.inj ho).2
      exact remembered_of_refused ht hb hrf hr h.remembered
    · next τ hp =>
      have hw := writeValue_invariant b e.path e.data h
        (writeConcrete_eq_ok.mp hp).2.1 (by
          intro hi har
          exact h.remembered l τ (previous_of_add ht hi hb)
            (ha l hi ht) (writeConcrete_eq_ok.mp hp).2.1 har)
      have hr' := remembered_of_written ht hb hp hr hw.remembered
      rw [outcome_bind]
      split
      · next t next ho =>
        rw [ho] at hw hr'
        refine ⟨hw.sound, ?_⟩
        intro s final hf
        obtain rfl := (Prod.mk.inj hf).2
        exact hr'
      · next f next her =>
        rw [her] at hw
        exact ⟨hw.sound, by simp⟩

theorem handleEntry_invariant (ha : AddsTo d e) (hr : replacesAdded b n u d (p, σ) e)
    (h : Kept n u d p σ) : Sound n u (outcome (handleEntry b n u p e) σ).2 ∧ ∀ s final,
    outcome (handleEntry b n u p e) σ = (.ok s, final) →
    Remembered n d (nextPrevious p e.path) final := by
  unfold handleEntry
  split
  · next hb =>
    refine ⟨h.sound, ?_⟩
    intro s final ho
    obtain rfl := (Prod.mk.inj ho).2
    simpa [nextPrevious, hb] using h.remembered
  · next hb => exact processEntry_invariant hb ha hr h

theorem inOrder_invariant {es : List (AttributeData δ)} (hd : ∀ e ∈ es, AddsTo d e)
    (ha : along (entryStep b n u) (replacesAdded b n u d) (p, σ) es) (h : Kept n u d p σ) :
    Sound n u (outcome (inOrder b n u p es) σ).2 ∧ ∀ a s final,
    outcome (inOrder b n u p es) σ = (.ok (a, s), final) → Remembered n d a final := by
  induction es generalizing p σ with
  | nil =>
    refine ⟨h.sound, ?_⟩
    intro a s final hok
    obtain ⟨⟨rfl, _⟩, rfl⟩ := hok
    exact h.remembered
  | cons e es ih =>
    obtain ⟨hn, he⟩ := forall_mem_cons.mp hd
    simp only [along, Bool.and_eq_true, Option.all_eq_true] at ha
    obtain ⟨hs', hr'⟩ := handleEntry_invariant hn ha.1 h
    rcases hf : outcome (handleEntry b n u p e) σ with
      ⟨f | first, next⟩
    · rw [hf] at hs'
      rw [inOrder, outcome_bind_error hf]
      exact ⟨hs', by simp⟩
    · rw [hf] at hs'
      have hs := ih he (ha.2 _ (by simp [entryStep, hf]))
        ⟨hs', hr' first next hf⟩
      rw [inOrder, outcome_bind_ok hf]
      rcases ho : outcome (inOrder b n u (nextPrevious p e.path)
        es) next with ⟨f | ⟨a, o⟩, final⟩
      · rw [ho] at hs
        rw [outcome_bind_error ho]
        exact ⟨hs.1, by simp⟩
      · rw [ho] at hs
        rw [outcome_bind_ok ho]
        refine ⟨hs.1, ?_⟩
        intro last' s f' hok
        obtain ⟨⟨rfl, _⟩, rfl⟩ := hok
        exact hs.2 a o final rfl

end MatterJs.WriteInteraction
