import MatterJs.Interaction.ListWrites

/-!
# The integrity of list writes

A write interaction whose entries are well formed ends without an error. Its answers with Success
are its commits, and the division into messages makes no difference.
-/
namespace MatterJs.WriteInteraction

open MatterJs.Action StateExcept TransitionSystem List Option Bool

/-! ### Entries that end without an error -/

/-- An error that is answered with a status, which says that there was one. -/
def isAnswer : Failure → Bool
  | .response code _ => code != .success
  | _ => false

/-- The schema and the cluster logic fail with a status. -/
structure Answers {δ α : Type} (behavior : Behavior δ α) : Prop where
  decodeValue : ∀ location data failure, behavior.decodeValue location data = .error failure →
    isAnswer failure
  decodeArray : ∀ location data failure, behavior.decodeArray location data = .error failure →
    isAnswer failure
  decodeElement : ∀ location data failure, behavior.decodeElement location data = .error failure →
    isAnswer failure
  refuses : ∀ state location value failure, behavior.refuses state location value = some failure →
    isAnswer failure

/-- An entry that a write request may have: no wildcard flags and no list index, a cluster and an
attribute and, in a group session, no endpoint. -/
def wellFormed {δ : Type} (session : Session) (entry : AttributeData δ) : Bool :=
  entry.path.wildcardPathFlags.isNone &&
    (entry.path.listIndex == .absent || entry.path.listIndex == .null) &&
    entry.path.clusterId.isSome && entry.path.attributeId.isSome &&
    (entry.path.endpointId.isNone || session.group.isNone)

variable {δ α : Type} {b : Behavior δ α} {n : Node} {u : Session} {m : TimedInteraction}
  {d : List AttributeLocation} {p : Option AttributeLocation} {a : AttributeState α}
  {σ next f : Store α} {l : AttributeLocation} {τ : AttributeType} {t : AttributeData δ}
  {e : List (AttributeData δ)} {s o : List AttributeStatus} {r : WriteRequest δ}
  {rs : List (WriteRequest δ)}

theorem Answers.decodeChange (h : Answers b) {i : ListIndex} {data : δ} {fi : Failure}
    (hf : decodeChange b τ l i data = .error fi) : isAnswer fi := by
  have hm : ∀ {β : Type} {d : Except Failure β} {f : β → Change α},
      d.map f = .error fi → d = .error fi := by
    intro β d f hd
    cases d with
    | error => exact congrArg Except.error (Except.error.inj hd)
    | ok => cases hd
  unfold MatterJs.Action.decodeChange at hf
  split at hf
  · split at hf
    · exact h.decodeArray _ _ _ (hm hf)
    · exact h.decodeValue _ _ _ (hm hf)
  · split at hf
    · exact h.decodeElement _ _ _ (hm hf)
    · exact Except.error.inj hf ▸ rfl
  · exact Except.error.inj hf ▸ rfl

/-- A write fails with an answer unless it is an addition to something that is not a list. -/
theorem Answers.attempt (h : Answers b) {li : ListIndex} {data : δ} {f : Failure}
    (hf : attempt b u τ σ.state l li data = .error f) : isAnswer f ∨ (f = .crash ∧
    li = .null ∧ τ.isArray ∧ ∀ es, σ.state.values l ≠ .list es) := by
  unfold MatterJs.Action.attempt at hf
  split at hf
  · next f' hd =>
    obtain rfl := Except.error.inj hf
    exact .inl (h.decodeChange hd)
  · next change hd =>
    split at hf
    · next f' ha =>
      obtain rfl := Except.error.inj hf
      rcases decodeChange_eq_ok hd with ⟨_, _, items, rfl⟩ | ⟨_, _, value, rfl⟩ |
        ⟨hi, har, item, rfl⟩
      · simp only [applyChange] at ha
        split at ha <;> cases ha
      · cases ha
      · simp only [applyChange] at ha
        split at ha
        · cases ha
        · next hnot => exact .inr ⟨(Except.error.inj ha).symm, hi, har, hnot⟩
    · split at hf
      · next re hr =>
        obtain rfl := Except.error.inj hf
        exact .inl (h.refuses _ _ _ _ hr)
      · cases hf

section Completion

variable [DecidableEq α]

variable (u σ l τ) in
theorem writeValue_completes (path : AttributePath) (data : δ) (han : Answers b)
    (hi : path.listIndex = .absent ∨ path.listIndex = .null)
    (hs : path.listIndex = .null → τ.isArray → ∃ e, σ.state.values l = .list e) :
    ∃ st i, outcome (writeValue b u τ l path data) σ = (.ok st, i) := by
  unfold writeValue
  split
  · next index hat => simp [hat] at hi
  · rw [outcome_get_bind]
    split
    · exact ⟨_, _, rfl⟩
    · exact ⟨_, _, rfl⟩
    · next a hn ht =>
      have ha : isAnswer a := by
        refine (han.attempt ht).resolve_right ?_
        rintro ⟨_, hu, har, hl⟩
        obtain ⟨e, he⟩ := hs hu har
        exact hl e he
      cases a with
      | response code c => exact absurd rfl (hn code c)
      | crash => cases ha
      | closed => cases ha

theorem writeEndpoints_completes (hn : Answers b) (hi : t.path.listIndex = .absent)
    (hl : t.path.clusterId.isSome) (ht : t.path.attributeId.isSome)
    (e : List Endpoint) : ∃ s i, outcome (writeEndpoints b u t e) σ = (.ok s, i) := by
  induction e generalizing σ with
  | nil => exact ⟨_, _, rfl⟩
  | cons endpoint e ih =>
    unfold writeEndpoints
    split
    · next code hw =>
      obtain ⟨clusterId, hc⟩ := isSome_iff_exists.mp hl
      obtain ⟨attributeId, ha⟩ := isSome_iff_exists.mp ht
      simp [writeEndpointForWildcard, hc, ha] at hw
    · exact ih
    · next l τ hw =>
      obtain ⟨status, next, hok⟩ := writeValue_completes u σ l τ
        { t.path with
          endpointId := some l.endpointId
          clusterId := some l.clusterId
          attributeId := some l.attributeId } t.data hn (.inl hi)
        (by simp [hi])
      obtain ⟨s, i, ho⟩ := @ih next
      rw [outcome_bind_ok hok, outcome_bind_ok ho]
      exact ⟨_, _, rfl⟩

theorem processEntry_completes (han : Answers b) (hf : wellFormed u t)
    (hb : ¬ isBusy p t.path) (had : AddsTo d t) (h : Kept n u d p σ) :
    ∃ s i, outcome (processEntry b n u t) σ = (.ok s, i) := by
  simp only [wellFormed, and_eq_true, or_eq_true, beq_iff_eq, isNone_iff_eq_none]
    at hf
  obtain ⟨⟨⟨⟨hfl, hi⟩, hc⟩, ha⟩, hg⟩ := hf
  unfold processEntry
  simp only [hfl, isSome_none, false_eq_true, if_false]
  split
  · next hpt =>
    have hen : t.path.endpointId = none := by
      obtain ⟨c, hci⟩ := isSome_iff_exists.mp hc
      obtain ⟨a, hai⟩ := isSome_iff_exists.mp ha
      simp only [AttributePath.concrete, hci, hai] at hpt
      split at hpt
      · cases hpt
      · next hnn => cases hd : t.path.endpointId with
        | none => rfl
        | some id => exact absurd rfl (hnn id c a hd rfl)
    have hab : t.path.listIndex = .absent := by
      refine hi.resolve_right ?_
      intro hn
      simp [clusterId_of_wildcard_add hpt hn hb] at hc
    split
    · next code he =>
      simp only [wildcardEndpoints, hen] at he
      split at he <;> cases he
    · exact writeEndpoints_completes han hab hc ha _
  · next o hpt =>
    have hng : u.group = none := by
      refine hg.resolve_left ?_
      intro hnn
      simp [AttributePath.concrete, hnn] at hpt
    simp only [hng, isSome_none, false_eq_true, if_false]
    rw [outcome_get_bind]
    split
    · exact ⟨_, _, rfl⟩
    · next τ hp =>
      have ht := (writeConcrete_eq_ok.mp hp).2.1
      obtain ⟨st, i, ho⟩ := writeValue_completes u σ o τ t.path
        t.data han hi (by
          intro hn har
          obtain ⟨list, hl⟩ := isSome_iff_exists.mp
            (h.remembered o τ (previous_of_add hpt hn hb) (had o hn hpt) ht har)
          exact (h.sound.lists o τ list ht har hl).2)
      rw [outcome_bind_ok ho]
      exact ⟨_, _, rfl⟩

theorem inOrder_completes (han : Answers b)
    (hfr : ∀ t ∈ e, wellFormed u t) (hd : ∀ t ∈ e, AddsTo d t)
    (ha : along (entryStep b n u) (replacesAdded b n u d) (p, σ) e)
    (h : Kept n u d p σ) : ∃ r i, outcome (inOrder b n u p e) σ = (.ok r, i) := by
  induction e generalizing p σ with
  | nil => exact ⟨_, _, rfl⟩
  | cons t e ih =>
    obtain ⟨hn, ht⟩ := forall_mem_cons.mp hd
    obtain ⟨hef, he⟩ := forall_mem_cons.mp hfr
    simp only [along, and_eq_true, Option.all_eq_true] at ha
    obtain ⟨first, next, hf⟩ : ∃ s next, outcome (handleEntry b n u p t) σ =
          (.ok s, next) := by
      unfold handleEntry
      split
      · exact ⟨_, _, rfl⟩
      · next hb =>
        exact processEntry_completes han hef hb hn h
    obtain ⟨hs', hr'⟩ := handleEntry_invariant hn ha.1 h
    rw [hf] at hs'
    obtain ⟨r, i, hs⟩ := ih he ht
      (ha.2 _ (by simp [entryStep, hf])) ⟨hs', hr' first next hf⟩
    rw [inOrder, outcome_bind_ok hf, outcome_bind_ok hs]
    exact ⟨_, _, rfl⟩

end Completion

/-! ### The answers with Success -/

/-- The attributes of the statuses that report success, and whether they were added to. -/
def successes (statuses : List AttributeStatus) : List (Option AttributeLocation × Bool) :=
  (statuses.filter (·.status = .success)).map
    (fun status => (status.path.concrete, status.path.listIndex = .null))

def isAdd : Change α → Bool
  | .add _ => true
  | _ => false

/-- The attributes of the commits, and whether they were added to. -/
def committed (commits : List (Commit α)) : List (Option AttributeLocation × Bool) :=
  commits.map (fun commit => (some commit.location, isAdd commit.change))

/-- The statuses report as successful what was committed meanwhile. -/
def Reported (store : Store α) (statuses : List AttributeStatus) (final : Store α) :
    Prop :=
  committed final.commits = committed store.commits ++ successes statuses

theorem Reported.trans (h : Reported σ s next) (h' : Reported next o f) :
    Reported σ (s ++ o) f := by
  unfold Reported at *
  rw [h', h]
  simp [successes]

theorem reported_of_refusal {path : AttributePath} {code : Status} {c : Option Nat}
    (h : code ≠ .success) : Reported σ [asStatus path code c] σ := by
  have hs : (asStatus path code c).status ≠ .success := by
    unfold asStatus
    split
    · simp
    · exact h
  simp [Reported, successes, hs]

section Success

variable [DecidableEq α]

theorem writeValue_reported (hn : Answers b) {path : AttributePath} {data : δ}
    {st : AttributeStatus} (hp : path.concrete = some l)
    (h : outcome (writeValue b u τ l path data) σ = (.ok st, f)) : Reported σ [st] f := by
  unfold writeValue at h
  split at h
  · cases h
  rw [outcome_get_bind] at h
  split at h
  · next change value ha =>
    obtain ⟨rfl, rfl⟩ := h
    have hd : isAdd change = (decide (path.listIndex = .null)) := by
      rcases decodeChange_eq_ok (attempt_eq_ok ha).1 with ⟨hi, _, _, rfl⟩ |
        ⟨hi, _, _, rfl⟩ | ⟨hi, _, _, rfl⟩ <;> simp [isAdd, hi]
    simp [Reported, committed, successes, Store.commit, asStatus, hp, hd]
  · next code c ha =>
    obtain ⟨rfl, rfl⟩ := h
    apply reported_of_refusal
    rcases hn.attempt ha with has | ⟨hc, _⟩
    · simpa [isAnswer] using has
    · cases hc
  · cases h

theorem writeEndpoints_reported (ha : Answers b) {e : List Endpoint}
    (h : outcome (writeEndpoints b u t e) σ = (.ok s, f)) : Reported σ s f := by
  induction e generalizing σ s with
  | nil =>
    obtain ⟨rfl, rfl⟩ := h
    simp [Reported, successes]
  | cons x e ih =>
    unfold writeEndpoints at h
    split at h
    · cases h
    · exact ih h
    · rw [outcome_bind] at h
      split at h
      · next st next hs =>
        rw [outcome_bind] at h
        split at h
        · next o f' ho =>
          obtain ⟨rfl, rfl⟩ := h
          exact (writeValue_reported ha rfl hs).trans (ih ho)
        · cases h
      · cases h

theorem processEntry_reported (ha : Answers b)
    (h : outcome (processEntry b n u t) σ = (.ok s, f)) : Reported σ s f := by
  unfold processEntry at h
  split at h
  · cases h
  split at h
  · split at h
    · cases h
    · exact writeEndpoints_reported ha h
  · next o hp =>
    split at h
    · cases h
    rw [outcome_get_bind] at h
    split at h
    · next st hr =>
      obtain ⟨rfl, rfl⟩ := h
      exact reported_of_refusal (writeConcrete_refusal hr)
    · rw [outcome_bind] at h
      split at h
      · next st next hs =>
        obtain ⟨rfl, rfl⟩ := h
        exact writeValue_reported ha hp hs
      · cases h

theorem inOrder_reported {la : Option AttributeLocation} (ha : Answers b)
    (h : outcome (inOrder b n u p e) σ = (.ok (la, s), f)) : Reported σ s f := by
  induction e generalizing p σ s with
  | nil =>
    obtain ⟨⟨_, rfl⟩, rfl⟩ := h
    simp [Reported, successes]
  | cons t e ih =>
    rw [inOrder, outcome_bind] at h
    split at h
    · next first next hf =>
      have hr : Reported σ first next := by
        unfold handleEntry at hf
        split at hf
        · simp only [outcome_pure, Prod.mk.injEq, Except.ok.injEq] at hf
          obtain ⟨rfl, rfl⟩ := hf
          simp [Reported, successes]
        · exact processEntry_reported ha hf
      rw [outcome_bind] at h
      split at h
      · next o f' ho =>
        obtain ⟨⟨rfl, rfl⟩, rfl⟩ := h
        exact hr.trans (ih ho)
      · cases h
    · cases h

end Success

/-! ### Messages -/

def entriesOf (request : WriteRequest δ) (requests : List (WriteRequest δ)) :
    List (AttributeData δ) :=
  request.writeRequests ++ requests.flatMap (·.writeRequests)

/-- All messages but the last announce another, none asks not to be answered. -/
def chunked : WriteRequest δ → List (WriteRequest δ) → Bool
  | request, [] => !request.suppressResponse && !request.moreChunkedMessages
  | request, nextRequest :: requests =>
    !request.suppressResponse && request.moreChunkedMessages && chunked nextRequest requests

section Messages

variable [DecidableEq α]

theorem handleChunks_sound (ha : ∀ t ∈ entriesOf r rs, AddsTo d t)
    (hl : along (entryStep b n u) (replacesAdded b n u d) (p, σ) (entriesOf r rs))
    (h : Kept n u d p σ) : Sound n u (handleChunks b n u p σ r rs).store := by
  induction rs generalizing p σ r with
  | nil =>
    have hm := inOrder_invariant
      (fun t he => ha t (mem_append_left _ he)) (along_append hl).1 h
    unfold handleChunks
    rw [outcome_handleEntries]
    split
    · next a i her =>
      rw [her] at hm
      exact hm.1
    · next la e i ho =>
      rw [ho] at hm
      repeat' split
      all_goals exact hm.1
  | cons x rs ih =>
    have hm := inOrder_invariant
      (fun t he => ha t (mem_append_left _ he)) (along_append hl).1 h
    unfold handleChunks
    rw [outcome_handleEntries]
    split
    · next a i her =>
      rw [her] at hm
      exact hm.1
    · next la e i ho =>
      have hs := (along_append hl).2 _ (exec_of_inOrder b n u ho)
      have hr' := hm.2 la e i ho
      rw [ho] at hm
      split
      · exact hm.1
      split
      · exact hm.1
      split
      · exact hm.1
      exact ih (fun t he => ha t (mem_append_right _ he)) hs
        ⟨hm.1, hr'⟩

/-- The messages of an interaction are answered with what its entries give one after another. -/
theorem handleChunks_of_inOrder {la : Option AttributeLocation} {s : List AttributeStatus}
    {final : Store α} (hc : chunked r rs)
    (h : outcome (inOrder b n u p (entriesOf r rs)) σ = (.ok (la, s), final)) :
    (handleChunks b n u p σ r rs).sent.flatten = s ∧
      (handleChunks b n u p σ r rs).store = final := by
  induction rs generalizing p σ r s with
  | nil =>
    obtain ⟨m, first, next, rest, hf, hrs, rfl⟩ := inOrder_append_eq_ok h
    obtain ⟨⟨rfl, rfl⟩, rfl⟩ := hrs
    simp only [chunked, and_eq_true, not_eq_true'] at hc
    simp [handleChunks, outcome_handleEntries, hf, hc.1, hc.2]
  | cons x rs ih =>
    obtain ⟨m, first, next, rest, hf, hrs, rfl⟩ := inOrder_append_eq_ok h
    simp only [chunked, and_eq_true, not_eq_true'] at hc
    obtain ⟨hn, hs⟩ := ih hc.2 hrs
    have hx : x.suppressResponse = false := by
      cases rs with
      | nil => simpa [chunked] using (and_eq_true_iff.mp hc.2).1
      | cons => simpa using (and_eq_true_iff.mp (and_eq_true_iff.mp hc.2).1).1
    simp [handleChunks, outcome_handleEntries, hf, hc.1.1, hc.1.2, hx, hn, hs]

end Messages

/-! ### The interaction -/

theorem sound_initial : Sound n u (⟨a, []⟩ : Store α) := by
  refine ⟨?_, ?_⟩
  · intro o τ list _ _ hl
    cases hl
  · intro e c later item hs
    simp at hs

theorem remembered_initial (d : List AttributeLocation) (σ : Store α) :
    Remembered n d none σ := by
  intro o τ hp
  cases hp

theorem mem_addedTo {entries : List (AttributeData δ)} {t : AttributeData δ}
    (he : t ∈ entries) {l : AttributeLocation} (hi : t.path.listIndex = .null)
    (hp : t.path.concrete = some l) : l ∈ addedTo entries :=
  mem_filterMap.mpr ⟨t, he, by simp [hi, hp]⟩

theorem content_writeSession (τ : AttributeType) (value : Value α) :
    content (writeSession u m) τ value = content u τ value := by
  cases value <;> rfl

section Interaction

variable [DecidableEq α]

/-- The condition on an interaction: each write of a list that it adds to, other than an addition,
passes the checks, is decoded and is not refused by the cluster, in the state it meets. -/
def ReplacesAdded (behavior : Behavior δ α) (node : Node) (session : Session)
    (timedInteraction : TimedInteraction) (state : AttributeState α)
    (entries : List (AttributeData δ)) : Prop :=
  along (entryStep behavior node (writeSession session timedInteraction))
    (replacesAdded behavior node (writeSession session timedInteraction) (addedTo entries))
    (none, ⟨state, []⟩) entries

instance (behavior : Behavior δ α) (node : Node) (session : Session)
    (timedInteraction : TimedInteraction) (state : AttributeState α)
    (entries : List (AttributeData δ)) :
    Decidable (ReplacesAdded behavior node session timedInteraction state entries) :=
  inferInstanceAs (Decidable (_ = true))

theorem handleWriteRequest_sound (hr : ReplacesAdded b n u m a (entriesOf r rs)) :
    Sound n (writeSession u m) (handleWriteRequest b n u m a r rs).store := by
  unfold handleWriteRequest
  split
  · exact sound_initial
  · exact handleChunks_sound (fun t he o => mem_addedTo he) hr
      ⟨sound_initial, remembered_initial _ _⟩

theorem suppress_of_chunked (h : chunked r rs) : r.suppressResponse = false := by
  cases rs <;> simp only [chunked, and_eq_true, not_eq_true'] at h
  · exact h.1
  · exact h.1.1

theorem more_of_chunked (h : chunked r []) : r.moreChunkedMessages = false := by
  simp only [chunked, and_eq_true, not_eq_true'] at h
  exact h.2

variable (u) in
/-- The checks before the first message do not tell one division into messages from another. -/
theorem checkWriteRequest_congr {r' : WriteRequest δ} {rs' : List (WriteRequest δ)}
    (hc : chunked r rs) (hc' : chunked r' rs')
    (ht : r'.timedRequest = r.timedRequest) (ha : m = .active → rs = [] ∧ rs' = []) :
    checkWriteRequest u m r' = checkWriteRequest u m r := by
  have hs := suppress_of_chunked hc
  have hs' := suppress_of_chunked hc'
  cases m with
  | none => simp [checkWriteRequest, hs, hs', ht]
  | active =>
    obtain ⟨rfl, rfl⟩ := ha rfl
    simp [checkWriteRequest, hs, hs', ht, more_of_chunked hc, more_of_chunked hc']
  | expired => simp [checkWriteRequest, hs, hs']

/-- What an interaction answers and leaves is given by its entries one after another. -/
theorem handleWriteRequest_of_chunked (ha : Answers b) (hf : ∀ t ∈ entriesOf r rs, wellFormed u t)
    (hr : ReplacesAdded b n u m a (entriesOf r rs)) (hc : chunked r rs)
    (hh : checkWriteRequest u m r = none) : ∃ la s final,
    outcome (inOrder b n (writeSession u m) none (entriesOf r rs)) ⟨a, []⟩ =
    (.ok (la, s), final) ∧ (handleWriteRequest b n u m a r rs).sent.flatten = s ∧
    (handleWriteRequest b n u m a r rs).store = final := by
  have hf' : ∀ t ∈ entriesOf r rs, wellFormed (writeSession u m) t := hf
  obtain ⟨⟨la, s⟩, final, ho⟩ := inOrder_completes ha hf'
    (fun t he o => mem_addedTo he) hr
    ⟨sound_initial, remembered_initial _ _⟩
  have hp := handleChunks_of_inOrder hc ho
  refine ⟨la, s, final, ho, ?_⟩
  unfold handleWriteRequest
  rw [hh]
  exact hp

end Interaction

/-- In an interaction each of whose entries is well formed and which replaces the lists it adds to,
every addition is made to a list that the interaction has established, the answers with Success are
the commits, and another division into messages gives the same statuses and the same values. -/
theorem list_writes_keep_integrity {δ α : Type} [DecidableEq α] (behavior : Behavior δ α)
    (node : Node) (session : Session) (timedInteraction : TimedInteraction)
    (state : AttributeState α) (request : WriteRequest δ) (requests : List (WriteRequest δ))
    (hanswers : Answers behavior)
    (hformed : ∀ entry ∈ entriesOf request requests, wellFormed session entry = true)
    (hreplaces : ReplacesAdded behavior node session timedInteraction state
      (entriesOf request requests)) :
    (∀ earlier commit later item,
      (handleWriteRequest behavior node session timedInteraction state request
        requests).store.commits = earlier ++ commit :: later → commit.change = .add item →
      ∃ type, attributeAt node commit.location = some type ∧
        established earlier commit.location = some (content session type commit.oldValue)) ∧
    (chunked request requests = true →
      successes (handleWriteRequest behavior node session timedInteraction state request
          requests).sent.flatten =
        committed (handleWriteRequest behavior node session timedInteraction state request
          requests).store.commits ∧
      ∀ request' requests', chunked request' requests' = true →
        entriesOf request' requests' = entriesOf request requests →
        request'.timedRequest = request.timedRequest →
        (timedInteraction = .active → requests = [] ∧ requests' = []) →
        (handleWriteRequest behavior node session timedInteraction state request'
            requests').sent.flatten =
          (handleWriteRequest behavior node session timedInteraction state request
            requests).sent.flatten ∧
        (handleWriteRequest behavior node session timedInteraction state request' requests').store =
          (handleWriteRequest behavior node session timedInteraction state request
            requests).store) := by
  refine ⟨?_, ?_⟩
  · intro earlier commit later item hp hd
    obtain ⟨type, hy, hes⟩ :=
      (handleWriteRequest_sound hreplaces).adds earlier commit later item hp hd
    exact ⟨type, hy, by rw [hes, content_writeSession]⟩
  · intro hh
    cases hc : checkWriteRequest session timedInteraction request with
    | some status =>
      refine ⟨by simp [handleWriteRequest, hc, successes, committed], ?_⟩
      intro request' requests' hc' he ht ha
      have hch' : checkWriteRequest session timedInteraction request' = some status :=
        (checkWriteRequest_congr session hh hc' ht ha).trans hc
      simp [handleWriteRequest, hc, hch']
    | none =>
      obtain ⟨last, st, i, ho, hn, hs⟩ :=
        handleWriteRequest_of_chunked hanswers hformed hreplaces hh hc
      refine ⟨?_, ?_⟩
      · have hr := inOrder_reported hanswers ho
        rw [hn, hs]
        simpa [committed] using hr.symm
      · intro request' requests' hc' he ht ha
        have hch' : checkWriteRequest session timedInteraction request' = none :=
          (checkWriteRequest_congr session hh hc' ht ha).trans hc
        obtain ⟨last', st', f', hok', hsn', hs'⟩ :=
          handleWriteRequest_of_chunked hanswers (he ▸ hformed) (he ▸ hreplaces)
            hc' hch'
        rw [he, ho] at hok'
        simp only [Prod.mk.injEq, Except.ok.injEq] at hok'
        rw [hn, hsn', hs, hs', hok'.1.2, hok'.2]
        exact ⟨rfl, rfl⟩

/-! ### Interactions on a node with one list -/

/-- The list takes items below ten. -/
def tensRefused : Behavior (List Nat) Nat where
  decodeValue := fun _ data => .ok data.length
  decodeArray := fun _ data => .ok data
  decodeElement := fun _ data => .ok data.length
  refuses := fun _ _ value =>
    match value with
    | .list entries =>
      if entries.all (·.2 < 10) then none
      else some (.response (.other 0x87) none)
    | _ => none

def listNode : Node where
  nodeId := 1
  endpoints := [
    { id := 1
      wildcardPathFlags := 0
      clusters := [
        { id := 6
          wildcardPathFlags := 0
          attributes := [⟨2, ⟨true, .view, true, .operate, false, false, false, false⟩, 0, true⟩]
          commands := []
          distinctAttributes := by decide
          distinctCommands := by decide }]
      distinct := by decide }]
  distinct := by decide

/-- A unicast session with all levels. -/
def operator : Session where
  hasRemoteActor := true
  authorityAt := fun _ _ _ => .granted
  subsumesView := fun _ _ _ _ => rfl
  subsumesOperate := fun _ _ _ _ _ => rfl
  fabric := 1
  timed := false
  largeMessage := false
  group := none

def listPath (listIndex : ListIndex) : AttributePath :=
  ⟨none, some 1, some 6, some 2, listIndex, none⟩

def oldList : AttributeState Nat where
  values := fun _ => .list [(0, 3)]
  versions := fun _ _ => 0

def message (moreChunkedMessages : Bool) (writeRequests : List (AttributeData (List Nat))) :
    WriteRequest (List Nat) where
  suppressResponse := false
  timedRequest := false
  moreChunkedMessages := moreChunkedMessages
  writeRequests := writeRequests

/-- The replacement is refused, and the addition that follows extends the list that was there
before the interaction. -/
theorem addition_to_old_list : (handleWriteRequest tensRefused listNode operator .none oldList
        (message false [⟨listPath .absent, [12], none⟩, ⟨listPath .null, [0, 0], none⟩]) []).sent =
      [[⟨listPath .absent, .other 0x87, none⟩, ⟨listPath .null, .success, none⟩]] ∧
    (handleWriteRequest tensRefused listNode operator .none oldList
        (message false [⟨listPath .absent, [12], none⟩, ⟨listPath .null, [0, 0], none⟩])
        []).store.commits = [⟨⟨1, 6, 2⟩, .add 2, .list [(0, 3)]⟩] ∧
    established ([] : List (Commit Nat)) ⟨1, 6, 2⟩ = none := by
  decide

theorem tensRefused_answers : Answers tensRefused := by
  refine ⟨?_, ?_, ?_, ?_⟩
  · intro o data a h
    cases h
  · intro o data a h
    cases h
  · intro o data a h
    cases h
  · intro sa o value a h
    simp only [tensRefused] at h
    split at h
    · split at h
      · cases h
      · exact Option.some.inj h ▸ rfl
    · cases h

/-- A list that is replaced in one message and added to in the next. -/
theorem list_writes_keep_integrity_chunked :
    (handleWriteRequest tensRefused listNode operator .none oldList
        (message false [⟨listPath .absent, [7], none⟩, ⟨listPath .null, [0, 0], none⟩])
        []).sent.flatten = (handleWriteRequest tensRefused listNode operator .none oldList
        (message true [⟨listPath .absent, [7], none⟩])
        [message false [⟨listPath .null, [0, 0], none⟩]]).sent.flatten :=
  (((list_writes_keep_integrity tensRefused listNode operator .none oldList
    (message true [⟨listPath .absent, [7], none⟩]) [message false [⟨listPath .null, [0, 0], none⟩]]
    tensRefused_answers (all_eq_true.mp (by decide)) (by decide)).2 (by decide)).2 _ _
    (by decide) rfl rfl (fun h => by cases h)).1

end MatterJs.WriteInteraction
