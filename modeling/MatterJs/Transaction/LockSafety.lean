import MatterJs.Transaction.Changes

/-!
# Locks do not outlive the transaction

The locks are safe as long as a transaction is not committed, rolled back or disposed of while it
has a request under way, or another commit or rollback.
-/
namespace MatterJs.Transaction

open TransitionSystem IndexedList List Function Bool View Request

namespace System

variable {s s' : System} {t u k p r : Nat}

/-! ### The invariant -/

structure Sound (s : System) : Prop where
  views : ∀ t, (s.tx t).view.Sound s.reference
  locks : ∀ r t, s.lockedBy r = some t → (s.tx t).view.Owns s.reference r
  held : ∀ t, ∀ c ∈ (s.tx t).view.cores, c.progress = .locked → ∀ r ∈ c.resources,
    s.lockedBy r = some t

theorem initial_sound (c : Nat) (f : Nat → Nat) (o : Nat → Bool) : (initial c f o).Sound := by
  refine ⟨?_, fun _ _ h => (by cases h), fun _ _ h => (by cases h)⟩
  intro t
  have hs : ((initial c f o).tx t).status ≠ .waiting := by
    simp only [initial]
    split_ifs <;> decide
  refine View.Sound.of_idle rfl hs ?_ ?_ ?_ ?_ ?_
  · intro p hp
    cases hp
  · intro i j p q hp
    cases hp
  · intro _
    simp only [initial]
    split_ifs <;> rfl
  · intro _
    exact ⟨rfl, rfl⟩
  · intro i p hp
    cases hp

theorem Sound.of_sameViews (h : s.Sound) (hs : SameViews s s') : s'.Sound := by
  refine ⟨?_, ?_, ?_⟩
  · intro t
    rw [hs.views, hs.reference]
    exact h.views t
  · intro r t hl
    rw [hs.lockedBy] at hl
    rw [hs.views, hs.reference]
    exact h.locks r t hl
  · intro t
    rw [hs.views, hs.lockedBy]
    exact h.held t

/-- Only the transaction that a step is about needs a look. -/
theorem Sound.update (h : s.Sound) (hf : Frame s s' t) (hv : (s'.tx t).view.Sound s.reference)
    (ho : ∀ r, s'.lockedBy r = some t → (s'.tx t).view.Owns s.reference r)
    (hh : ∀ c ∈ (s'.tx t).view.cores, c.progress = .locked → ∀ r ∈ c.resources,
      s'.lockedBy r = some t) : s'.Sound := by
  refine ⟨?_, ?_, ?_⟩
  · intro u
    rw [hf.reference]
    by_cases hu : u = t
    · rw [hu]
      exact hv
    · rw [hf.views u hu]
      exact h.views u
  · intro r u hl
    rw [hf.reference]
    by_cases hu : u = t
    · rw [hu] at hl ⊢
      exact ho r hl
    · rw [hf.views u hu]
      exact h.locks r u ((hf.locks r u hu).mp hl)
  · intro u c hc hl r hr
    by_cases hu : u = t
    · rw [hu] at hc ⊢
      exact hh c hc hl r hr
    · rw [hf.views u hu] at hc
      exact (hf.locks r u hu).mpr (h.held u c hc hl r hr)

variable {q : Request} {rs : List Nat} {status : Status} {pr : Process}
  {v : TxEvent}

/-- A transaction takes locks that are free, and changes. -/
theorem Sound.change (h : s.Sound) {tx : Tx} (hfree : s.lockableSync t rs)
    (hv : tx.view.Sound s.reference) (ho : ∀ r, r ∈ rs ∨ (s.tx t).view.Owns s.reference r →
    tx.view.Owns s.reference r) (hcr : ∀ c ∈ tx.view.cores, c.progress = .locked →
    c ∈ (s.tx t).view.cores ∨ c.resources ⊆ rs) : ((s.takeLocks t rs).setTx t tx).Sound := by
  refine h.update ((frame_takeLocks hfree).trans (frame_setTx ..)) ?_ ?_ ?_ <;> rw [setTx_self]
  · exact hv
  · intro r hr
    rw [setTx_lockedBy, takeLocks_lockedBy] at hr
    split_ifs at hr with hm
    · exact ho r (.inl hm)
    · exact ho r (.inr (h.locks r t hr))
  · intro c hc hl r hr
    rw [setTx_lockedBy, takeLocks_lockedBy]
    split_ifs with hm
    · rfl
    · rcases hcr c hc hl with hd | hs
      · exact h.held t c hd hl r hr
      · exact absurd (hs hr) hm

theorem Sound.replace (h : s.Sound) {tx : Tx} (hv : tx.view.Sound s.reference)
    (ho : ∀ r, (s.tx t).view.Owns s.reference r → tx.view.Owns s.reference r)
    (hcr : ∀ c ∈ tx.view.cores, c.progress = .locked → c ∈ (s.tx t).view.cores) :
    (s.setTx t tx).Sound := by
  have hh : ((s.takeLocks t []).setTx t tx).Sound :=
    h.change rfl hv (fun r hr => ho r (hr.resolve_left not_mem_nil))
      (fun c hc hl => .inl (hcr c hc hl))
  exact hh

theorem setTx_setStatus (s : System) (t : Nat) (tx : Tx) (status : Status) :
    (s.setTx t tx).setStatus t status = s.setTx t { tx with status } := by
  simp [setStatus, setTx]

theorem setStatus_self (s : System) (t : Nat) : s.setStatus t (s.tx t).status = s := by
  rw [setStatus, setTx, update_eq_self]

/-! ### Requests -/

theorem round_cases (s : System) (t k : Nat)
    (hk : (s.tx t).requests[k]? = some q) (hs : q.stage.progress = .pending) :
    (s.lockableSync t q.resources ∧ s.round t k q = (s.takeLocks t q.resources).setTx t
        ((s.tx t).setRequest k { q with stage := .locked })) ∨ SameViews s (s.round t k q) := by
  have hf : SameViews s
      (s.setTx t ((s.tx t).setRequest k { q with stage := .failed })) := by
    refine sameViews_setTx s (view_setRequest hk ?_)
    simp only [core, hs]
    rfl
  unfold round
  cases ho : s.acquireLocks t q.resources with
  | locked => exact .inl ⟨acquireLocks_locked ho, rfl⟩
  | wait o => exact .inr (sameViews_waitFor s t k o hk hs)
  | deadlock => exact .inr hf
  | unavailable => exact .inr hf
  | alreadyWaiting => exact .inr hf

theorem view_cores_getElem? {tx : Tx} (hk : tx.requests[k]? = some q) :
    tx.view.cores[k]? = some q.core := by
  simp [Tx.view, hk]

theorem view_setStage (tx : Tx) (k : Nat) (q : Request) (stage : Stage) :
    (tx.setRequest k { q with stage }).view = { tx.view with
      cores := tx.view.cores.set k { q.core with progress := stage.progress } } := by
  simp only [Tx.view, Tx.setRequest, map_set]
  rfl

section
variable (h : s.Sound)
include h

theorem Sound.round (hk : (s.tx t).requests[k]? = some q)
    (hs : q.stage.progress = .pending) : (s.round t k q).Sound := by
  rcases round_cases s t k hk hs with ⟨hfree, he⟩ | hm
  · have hcr := view_cores_getElem? hk
    have hp : q.core.progress = .pending := hs
    rw [he]
    refine h.change hfree ?_ ?_ ?_ <;> rw [view_setStage]
    · refine (h.views t).setProgress hcr ?_ (by decide)
      rw [hp]
      decide
    · intro r hr
      exact (h.views t).owns_lock hcr hs hr
    · intro c hc _
      rcases eq_or_mem_of_mem_set hc with rfl | ho
      · exact .inr (List.Subset.refl _)
      · exact .inl ho
  · exact h.of_sameViews hm

/-- A transaction that holds nothing has no lock. -/
theorem Sound.not_locked (hh : ¬ (s.tx t).view.Holds) (r : Nat) : s.lockedBy r ≠ some t := by
  intro hl
  exact hh (h.locks r t hl).1

/-- A request is made, and the status may change with it. -/
theorem Sound.makeRequest (purpose : Purpose) (rs : List Nat)
    (hv : View.Sound s.reference { (s.tx t).view with
      status
      cores := (s.tx t).view.cores ++ [⟨purpose, rs.map s.reference, .pending⟩] })
    (hhl : (s.tx t).view.Holds → status.isLocking) :
    ((s.setStatus t status).request t purpose rs).Sound := by
  let q : Request := { purpose, resources := s.resourceSet rs, stage := .ready }
  let tx : Tx := { s.tx t with status, requests := (s.tx t).requests ++ [q] }
  have hcr : tx.view.cores = (s.tx t).view.cores ++ [q.core] := by
    simp [tx, Tx.view]
  have ha : (s.setTx t tx).Sound := by
    refine h.replace ?_ ?_ ?_
    · have he : tx.view = { (s.tx t).view with status, cores := tx.view.cores } := rfl
      rw [he, hcr]
      exact hv
    · intro r hr
      refine hr.mono (fun hh => .inl (hhl hh)) id ?_
      intro c hc _ _ _
      rw [hcr]
      exact .inl (mem_append_left _ hc)
    · intro c hc hl
      rw [hcr] at hc
      rcases mem_concat_cases hc with hc | rfl
      · exact hc
      · cases hl
  have he : (s.setStatus t status).request t purpose rs
      = (s.setTx t tx).round t (s.tx t).requests.length q := by
    simp only [System.request, setStatus, setTx, update_self, update_idem]
    rfl
  rw [he]
  exact ha.round (by rw [setTx_self]; exact getElem?_concat_length) rfl

theorem Sound.requestBegin (hs : (s.tx t).status = .shared) (hc : (s.tx t).view.closing = false) :
    ((s.setStatus t .waiting).request t .begin (s.tx t).resources).Sound := by
  have hl := not_holds_of_shared (v := (s.tx t).view) hs
    (not_resetting_of_closing hc)
  refine h.makeRequest _ _ ?_ (fun hh => absurd hh hl)
  exact (h.views t).requestBegin hs hc (by decide)

theorem Sound.requestAdd (hs : (s.tx t).status = .exclusive)
    (rs : List Nat) : (s.request t (.addResources rs) rs).Sound := by
  have hr := h.makeRequest (.addResources rs) rs
    ((h.views t).requestAdd hs rs) (fun _ => (by rw [Tx.view, hs]; rfl))
  exact setStatus_self s t ▸ hr

end

/-! ### Locks that are free -/

theorem putResources_self (s : System) (t : Nat) (rs : List Nat) :
    (s.putResources t rs).tx t = { s.tx t with resources := (s.tx t).resources ++ rs } :=
  setTx_self ..

/-- The locks that are held stay owned as more resources are recorded. -/
theorem owns_put {v : View} (h : v.Owns s.reference r) (rs : List Nat) :
    View.Owns s.reference { v with resources := v.resources ++ rs } r := by
  refine h.mono id ?_ (fun c hc _ _ _ => .inl hc)
  intro hm
  rw [map_append]
  exact mem_append_left _ hm

section
variable (h : s.Sound)
include h

theorem Sound.putResources (hs : (s.tx t).status ≠ .waiting)
    (rs : List Nat) : (s.putResources t rs).Sound :=
  h.replace ((h.views t).putResources hs _) (fun _ hr => owns_put hr rs)
    (fun _ hc _ => hc)

/-- The resources of an exclusive transaction are locked as they are recorded. -/
theorem Sound.takeResources (hs : (s.tx t).status = .exclusive)
    (hfree : s.lockableSync t (s.resourceSet rs)) :
    ((s.takeLocks t (s.resourceSet rs)).putResources t rs).Sound := by
  refine h.change hfree ?_ ?_ (fun _ hc _ => .inl hc)
  · refine (h.views t).putResources ?_ _
    rw [show (s.tx t).view.status = .exclusive from hs]
    decide
  · rintro r (hm | hr)
    · refine ⟨.inl ?_, .inl ?_⟩
      · simp only [takeLocks_tx, hs]
        rfl
      · simp only [Tx.view, map_append]
        exact mem_append_right _ hm
    · exact owns_put hr rs

theorem Sound.addResourcesSync (t : Nat) (rs : List Nat) : (s.addResourcesSync t rs).Sound := by
  unfold System.addResourcesSync
  cases hs : (s.tx t).status <;> try exact h
  case shared =>
    exact h.putResources (by rw [hs]; decide) rs
  case exclusive =>
    split_ifs with hfree
    · exact h.takeResources hs hfree
    · exact h

theorem Sound.addResources (t : Nat) (rs : List Nat) : (s.addResources t rs).Sound := by
  unfold System.addResources
  split
  case h_1 hs => exact h.requestAdd hs rs
  case h_2 => exact h.addResourcesSync t rs

theorem Sound.begin (hc : (s.tx t).view.closing = false) : (s.begin t).Sound := by
  unfold System.begin
  split
  case h_1 hs => exact h.requestBegin hs hc
  case h_2 => exact h

theorem Sound.beginSync (hl : (s.tx t).view.closing = false) : (s.beginSync t).Sound := by
  unfold System.beginSync
  split
  case h_2 => exact h
  case h_1 hs =>
    split_ifs with hfree
    · refine h.change hfree ((h.views t).beginSync hs hl) ?_ (fun _ hc _ => .inl hc)
      rintro r (hm | hr)
      · exact ⟨.inl rfl, .inl hm⟩
      · exact hr.mono (fun _ => .inl rfl) id (fun c hc _ _ _ => .inl hc)
    · exact h

end

theorem addResourcesSync_processes (s : System) (t : Nat) (rs : List Nat) :
    ((s.addResourcesSync t rs).tx t).processes = (s.tx t).processes := by
  unfold System.addResourcesSync
  split
  · split_ifs
    · rw [putResources_self]
      rfl
    · rfl
  · rw [putResources_self]
  · rfl

theorem Sound.lock (h : s.Sound) (hc : (s.tx t).view.closing = false)
    (rs : List Nat) : (s.lock t rs).Sound := by
  have hc' : ((s.addResourcesSync t rs).tx t).view.closing = false := by
    rw [← hc]
    simp [closing, Tx.view, addResourcesSync_processes]
  unfold System.lock
  split_ifs
  · split
    · exact (h.addResourcesSync t rs).beginSync hc'
    · exact (h.addResourcesSync t rs).beginSync hc'
    · exact h
  · exact h.addResources t rs

/-! ### The end of a request -/

section
variable (h : s.Sound)
include h

theorem Sound.endRequest (hv : ((s.tx t).view.endRequest k q.core status).Sound s.reference)
    (ho : ∀ r, (s.tx t).view.Owns s.reference r →
      ((s.tx t).view.endRequest k q.core status).Owns s.reference r) :
    (s.setTx t { (s.tx t).setRequest k { q with stage := .done } with status }).Sound := by
  have he : ({ (s.tx t).setRequest k { q with stage := .done } with status } : Tx).view
      = (s.tx t).view.endRequest k q.core status := by
    simp only [Tx.view, Tx.setRequest, map_set]
    rfl
  refine h.replace ?_ ?_ ?_ <;> rw [he]
  · exact hv
  · exact ho
  · intro c hc hl
    rcases eq_or_mem_of_mem_set hc with rfl | hd
    · cases hl
    · exact hd

section
variable (hk : (s.tx t).requests[k]? = some q)
include hk

theorem Sound.finishBegin (hp : q.purpose = .begin) (hs : q.stage = .locked) :
    ((s.setTx t ((s.tx t).setRequest k { q with stage := .done })).setStatus t
      .exclusive).Sound := by
  have hcr := view_cores_getElem? hk
  have hl : q.core.progress = .locked := by rw [core, hs]; rfl
  rw [setTx_setStatus]
  refine h.endRequest ((h.views t).finishBegin hcr hp (by rw [hl]; decide)
    (.inl rfl)) ?_
  intro r hr
  refine hr.mono (fun _ => .inl rfl) id ?_
  rintro c hc ⟨e, ha⟩ _ _
  refine .inl (mem_set_of_ne hcr hc ?_)
  rintro rfl
  rw [show q.core.purpose = .begin from hp] at ha
  cases ha

theorem Sound.failBegin (hp : q.purpose = .begin) (hs : q.stage = .failed) :
    ((s.setTx t ((s.tx t).setRequest k { q with stage := .done })).setStatus t .shared).Sound := by
  have hc := view_cores_getElem? hk
  have hn : q.core.progress = .pending := by rw [core, hs]; rfl
  have hh := (h.views t).not_holds_of_begin hc hp hn
  rw [setTx_setStatus]
  exact h.endRequest ((h.views t).finishBegin hc hp (by rw [hn]; decide)
    (.inr rfl)) (fun r hr => absurd hr.1 hh)

theorem Sound.failAdd (hp : q.purpose = .addResources rs) (hs : q.stage = .failed) :
    (s.setTx t ((s.tx t).setRequest k { q with stage := .done })).Sound := by
  have hcr := view_cores_getElem? hk
  have hn : q.core.progress = .pending := by rw [core, hs]; rfl
  have he := ((h.views t).adding _ (mem_of_getElem? hcr) rs hp (by rw [hn]; decide)).1
  refine h.endRequest ((h.views t).finishAdd hcr hp) ?_
  intro r hr
  refine hr.mono (fun _ => .inl (he ▸ rfl)) id ?_
  intro c hc _ hl _
  refine .inl (mem_set_of_ne hcr hc ?_)
  rintro rfl
  rw [hn] at hl
  cases hl

/-- The locks that the request has taken are recorded. -/
theorem Sound.finishAdd (hp : q.purpose = .addResources rs) (ht : q.stage = .locked) :
    ((s.setTx t ((s.tx t).setRequest k { q with stage := .done })).addResourcesSync t
      rs).Sound := by
  have hcr := view_cores_getElem? hk
  have hlc : q.core.progress = .locked := by rw [core, ht]; rfl
  obtain ⟨he, hrs⟩ := (h.views t).adding _ (mem_of_getElem? hcr) rs
    hp (by rw [hlc]; decide)
  have hl : (s.tx t).view.status.isLocking := he ▸ rfl
  have hfree : s.lockableSync t (s.resourceSet rs) := by
    refine all_eq_true.mpr ?_
    intro r hr
    rw [h.held t _ (mem_of_getElem? hcr) hlc r (hrs ▸ hr)]
    simp
  have hq : (s.setTx t ((s.tx t).setRequest k { q with stage := .done })).addResourcesSync
      t rs = (s.takeLocks t (s.resourceSet rs)).setTx t
        { (s.tx t).setRequest k { q with stage := .done } with
          resources := (s.tx t).resources ++ rs } := by
    have hs : (s.tx t).status = .exclusive := he
    simp only [System.addResourcesSync, setTx_self, Tx.setRequest, hs]
    refine (if_pos hfree).trans ?_
    simp only [System.putResources, takeLocks, setTx, update_self, update_idem]
    rfl
  have hv : ({ (s.tx t).setRequest k { q with stage := .done } with
      resources := (s.tx t).resources ++ rs } : Tx).view
      = { (s.tx t).view.endRequest k q.core (s.tx t).status with
          resources := (s.tx t).resources ++ rs } := by
    simp only [Tx.view, Tx.setRequest, map_set]
    rfl
  rw [hq]
  refine h.change hfree ?_ ?_ ?_ <;> rw [hv]
  · refine View.Sound.putResources ((h.views t).finishAdd hcr hp) ?_ _
    rw [View.endRequest, he]
    decide
  · rintro r (hm | hr)
    · refine ⟨.inl hl, .inl ?_⟩
      rw [map_append]
      exact mem_append_right _ hm
    · refine hr.mono (fun _ => .inl hl) ?_ ?_ <;> rw [map_append]
      · exact mem_append_left _
      · intro c hc _ _ hr'
        by_cases hc' : c = q.core
        · rw [hc', hrs] at hr'
          exact .inr (mem_append_right _ hr')
        · exact .inl (mem_set_of_ne hcr hc hc')
  · intro c hc hcl
    rcases eq_or_mem_of_mem_set hc with rfl | ho
    · cases hcl
    · exact .inl ho

end

theorem Sound.goOn (hg : s.goOn t k = some s') : s'.Sound := by
  obtain ⟨e, hk, ha⟩ := Option.bind_eq_some_iff.mp hg
  cases hs : e.stage <;> rw [hs] at ha
  case waiting | done => cases ha
  case resolved =>
    cases ha
    refine h.of_sameViews (sameViews_setTx s (view_setRequest hk ?_))
    rw [core, core, hs]
    rfl
  case ready =>
    cases ha
    exact h.round hk (by rw [hs]; rfl)
  case locked =>
    cases hp : e.purpose <;> simp only [hp] at ha <;> cases ha
    · simpa [hp] using h.finishBegin hk hp hs
    · simpa only [hp] using h.finishAdd hk hp hs
  case failed =>
    cases hp : e.purpose <;> simp only [hp] at ha <;> cases ha
    · simpa only [hp] using h.failBegin hk hp hs
    · simpa only [hp] using h.failAdd hk hp hs

end

/-! ### Resets -/

theorem reset_view (s : System) (t : Nat) :
    ((s.reset t).tx t).view = { (s.tx t).view with status := .shared, resources := [] } := by
  rw [(sameViews_reset s t).views, released, setTx_self]
  rfl

/-- A lock that a reset leaves is one of a resource that was not recorded. -/
theorem reset_lockedBy (hr : (s.reset t).lockedBy r = some t) :
    s.lockedBy r = some t ∧ r ∉ (s.tx t).resources.map s.reference := by
  rw [(sameViews_reset s t).lockedBy, released, setTx_lockedBy] at hr
  simp only [releaseLocks] at hr
  split_ifs at hr with hm
  exact ⟨hr, fun hc => hm ⟨hc, hr⟩⟩

theorem dispose_view (s : System) (t : Nat) :
    ((s.dispose t).tx t).view = { (s.tx t).view with status := .destroyed, resources := [] } := by
  have hr := reset_view s t
  simp only [dispose, setStatus, setTx_self]
  calc ({ (s.reset t).tx t with status := .destroyed } : Tx).view
      = { ((s.reset t).tx t).view with status := .destroyed } := rfl
    _ = _ := by rw [hr]

/-- Without a request under way, the recorded resources are all that is locked, and a reset
releases them. -/
theorem Sound.release (h : s.Sound) (hi : (s.tx t).view.idle) (hf : Frame s s' t)
    (hv : (s'.tx t).view.Sound s.reference) (hcr : (s'.tx t).view.cores = (s.tx t).view.cores)
    (hlc : ∀ r, s'.lockedBy r = some t →
      s.lockedBy r = some t ∧ r ∉ (s.tx t).resources.map s.reference) : s'.Sound := by
  refine h.update hf hv ?_ ?_
  · intro r hr
    obtain ⟨hl, hm⟩ := hlc r hr
    exact absurd ((h.locks r t hl).mem_resources hi) hm
  · intro c hc hl
    rw [hcr] at hc
    exact absurd hl (not_locked_of_idle hi hc)

theorem Sound.dispose_of_idle (h : s.Sound) (hi : (s.tx t).view.idle)
    (hq : (s.tx t).view.quiescent) (hf : Frame s s' t)
    (hv : (s'.tx t).view = { (s.tx t).view with status := .destroyed, resources := [] })
    (hl : ∀ r, s'.lockedBy r = some t →
      s.lockedBy r = some t ∧ r ∉ (s.tx t).resources.map s.reference) : s'.Sound :=
  h.release hi hf (hv ▸ (h.views t).dispose hi hq) (by rw [hv]) hl

theorem Sound.dispose (h : s.Sound) (hi : (s.tx t).view.idle)
    (hq : (s.tx t).view.quiescent) : (s.dispose t).Sound :=
  h.dispose_of_idle hi hq (frame_dispose s t) (dispose_view s t)
    (fun _ hr => reset_lockedBy hr)

/-! ### Commit and rollback -/

theorem setStatus_setProcess (s : System) (t p : Nat) (status : Status) (pr : Process) :
    (s.setStatus t status).setProcess t p pr = s.setTx t { s.tx t with
      status, processes := (s.tx t).processes.set p pr } := by
  simp [setProcess, setStatus, setTx, Tx.setProcess]

section
variable (h : s.Sound)
include h

theorem Sound.moveProcess (hi : (s.tx t).view.idle)
    {p' : Process} (hp : (s.tx t).processes[p]? = some pr) (ho : (s.tx t).view.ActiveAt p)
    (hd : p'.disposes = pr.disposes) (hm : pr.pc.mayMove p'.pc status)
    (hh : (s.tx t).view.Holds → status.isLocking ∨ (status = .shared ∧ ∃ m, p'.pc = .resetting m)) :
    ((s.setStatus t status).setProcess t p p').Sound := by
  rw [setStatus_setProcess]
  refine h.replace ((h.views t).setProcess hi hp ho hd hm) ?_ (fun _ hc _ => hc)
  intro r hr
  refine hr.mono ?_ id (fun c hc _ _ _ => .inl hc)
  intro hhl
  rcases hh hhl with hl | ⟨hs, m, hpc⟩
  · exact .inl hl
  · refine .inr (.inl ⟨hs, p', ?_, m, hpc⟩)
    exact mem_set_self hp p'

section
variable (hp : (s.tx t).processes[p]? = some pr)
include hp

/-- While a process is active, the others are not. -/
theorem Sound.others_inactive (ha : pr.pc.isActive) : (s.tx t).view.ActiveAt p := by
  intro i q hq hi
  by_contra hqa
  rw [not_eq_false] at hqa
  exact hi ((h.views t).activeOnce i p q pr hq hp hqa ha)

theorem Sound.status_of_pc (hc : pr.pc.status = some status) : (s.tx t).status = status :=
  Pc.status_of_fits ((h.views t).fits pr (mem_of_getElem? hp)) hc

/-- A process that reports has nothing locked. -/
theorem Sound.not_holds_of_reporting
    (hpc : pr.pc = .conclude ∨ ∃ ps, pr.pc = .concluding ps) : ¬ (s.tx t).view.Holds := by
  rcases hpc with hpc | ⟨ps, hpc⟩
  · have ho := h.others_inactive hp (by rw [hpc]; rfl)
    refine not_holds_of_shared (h.status_of_pc hp (by rw [hpc]; rfl)) ?_
    intro q hq c hc
    obtain ⟨i, hi⟩ := getElem?_of_mem hq
    by_cases hip : i = p
    · rw [hip, show (s.tx t).view.processes = (s.tx t).processes from rfl, hp] at hi
      rw [← Option.some.inj hi, hpc] at hc
      cases hc
    · have hn := ho i q hi hip
      rw [hc] at hn
      cases hn
  · exact not_holds_of_status (.inl (h.status_of_pc hp (by rw [hpc]; rfl)))

end

theorem Sound.finishCycle (hid : (s.tx t).view.idle) (hp : (s.tx t).processes[p]? = some pr)
    (hc : pr.pc = .conclude ∨ ∃ ps, pr.pc = .concluding ps) :
    ((s.setStatus t .shared).finishCycle t p pr).Sound := by
  have hl := h.not_holds_of_reporting hp hc
  have ho := h.others_inactive hp
    (by rcases hc with hc | ⟨ps, hc⟩ <;> rw [hc] <;> rfl)
  have hm {pc : Pc} {outer : Nat} (hv : Pc.mayMove .conclude pc .shared) :
      ((s.setStatus t .shared).setProcess t p { pr with pc, outer }).Sound := by
    refine h.moveProcess hid hp ho (by rfl) ?_ (fun hh => absurd hh hl)
    rcases hc with hc | ⟨ps, hc⟩ <;> rw [hc] <;> exact hv
  unfold System.finishCycle
  split_ifs with ht hd
  · exact hm rfl
  · -- The transaction is disposed of; nothing else is going on.
    refine (hm rfl).dispose ?_ ?_
    · rw [setStatus_setProcess, setTx_self]
      exact hid
    · rw [setStatus_setProcess, setTx_self]
      refine all_eq_true.mpr ?_
      intro q hq
      obtain ⟨i, hi⟩ := getElem?_of_mem hq
      rcases getElem?_set_cases hi with ⟨-, rfl⟩ | ⟨hip, hi⟩
      · rfl
      · have hn : pr.pc ≠ .done := by
          rcases hc with hc | ⟨ps, hc⟩ <;> rw [hc] <;> simp
        have hq := ((h.views t).disposing p pr hp hd hn).2 i q hi hip
        rw [hq]
        rfl
  · exact hm rfl

theorem Sound.resetProcess (hi : (s.tx t).view.idle)
    (hp : (s.tx t).processes[p]? = some pr) {pc : Pc}
    (ha : pr.pc.isActive) (hmv : pr.pc.mayMove pc .shared) :
    ((s.setProcess t p { pr with pc }).reset t).Sound := by
  have ho := h.others_inactive hp ha
  have ht : (s.setProcess t p { pr with pc }).tx t
      = { s.tx t with processes := (s.tx t).processes.set p { pr with pc } } := setTx_self ..
  have hv : (((s.setProcess t p { pr with pc }).reset t).tx t).view
      = { (s.tx t).view with
          status := .shared
          resources := []
          processes := (s.tx t).view.processes.set p { pr with pc } } := by
    rw [reset_view, ht]
    rfl
  refine h.release hi ((frame_setTx ..).trans (frame_reset ..)) ?_ (by rw [hv]) ?_
  · rw [hv]
    exact (h.views t).setProcess hi hp ho (by rfl) hmv
  · intro r hr
    have hm := reset_lockedBy hr
    rwa [ht] at hm

end

/-- A commit or a rollback goes on only when no request is under way. At the end of the post-commit
hooks nothing else is going on either, and a chain of commits is not cut off. -/
def mayProceed (s : System) (t p : Nat) : Bool :=
  (s.tx t).view.idle &&
    match (s.tx t).processes[p]? with
    | some process =>
      process.pc != .postCommit ||
        ((s.tx t).view.resting &&
          !((s.tx t).status == .exclusive && MAX_CHAINED_COMMITS < process.count + 1))
    | none => true

section
variable (h : s.Sound)
include h

theorem Sound.proceed {ok hooks : Bool} (hmay : s.mayProceed t p)
    (hpro : s.proceed t p ok hooks = some s') : s'.Sound := by
  obtain ⟨pr, hp, hac⟩ := Option.bind_eq_some_iff.mp hpro
  obtain ⟨hi, hps⟩ : (s.tx t).view.idle ∧ (pr.pc ≠ .postCommit ∨
      (s.tx t).view.resting ∧ ((s.tx t).status = .exclusive →
        pr.count + 1 ≤ MAX_CHAINED_COMMITS)) := by
    simp only [mayProceed, hp, and_eq_true, or_eq_true, bne_iff_ne, not_eq_true',
      and_eq_false_iff, beq_eq_false_iff_ne, decide_eq_false_iff_not, Nat.not_lt] at hmay
    refine ⟨hmay.1, ?_⟩
    rcases hmay.2 with hpc | ⟨hr, hc⟩
    · exact .inl hpc
    · exact .inr ⟨hr, fun hs => hc.resolve_left (fun hn => hn hs)⟩
  -- a process that keeps the locks
  have hl {pc : Pc} {status : Status} (ha : pr.pc.isActive)
      (hv : pr.pc.mayMove pc status) (hs : status.isLocking) :
      ((s.setStatus t status).setProcess t p { pr with pc }).Sound :=
    h.moveProcess hi hp (h.others_inactive hp ha) (by rfl) hv (fun _ => .inl hs)
  cases hpc : pr.pc with
  | preCommit =>
    rw [hpc] at hl
    have hs := h.status_of_pc hp (by rw [hpc]; rfl)
    simp only [hpc, rollbackAndConclude, mayFinalize, hs] at hac
    split_ifs at hac with hok hhk hm'
    · cases hac
      exact hl rfl rfl rfl
    · cases hac
      rw [← setStatus_self s t, hs]
      exact hl rfl rfl rfl
    · cases hac
      exact hl rfl rfl rfl
    · exact absurd rfl hm'
  | settled =>
    rw [hpc] at hl
    have hs := h.status_of_pc hp (by rw [hpc]; rfl)
    simp only [hpc, rollbackAndConclude, mayFinalize, restore, hs] at hac
    split_ifs at hac with hok hm'
    · cases hac
      exact hl rfl rfl rfl
    · cases hac
      have he : (s.setStatus t .exclusive).setStatus t .rollingBack
          = s.setStatus t .rollingBack := setTx_setStatus ..
      rw [he]
      exact hl rfl rfl rfl
    · simp [setStatus] at hm'
  | enterCommit =>
    rw [hpc] at hl
    have hs := h.status_of_pc hp (by rw [hpc]; rfl)
    simp only [hpc, mayFinalize, hs] at hac
    cases hac
    exact hl rfl rfl rfl
  | phaseOne =>
    rw [hpc] at hl
    simp only [hpc] at hac
    split_ifs at hac with hok <;> cases hac <;> exact hl rfl rfl rfl
  | phaseTwo =>
    rw [hpc] at hl
    have hs := h.status_of_pc hp (by rw [hpc]; rfl)
    simp only [hpc] at hac
    cases hac
    rw [← setStatus_self s t, hs]
    exact hl rfl rfl rfl
  | rolling =>
    have ho := h.others_inactive hp (by rw [hpc]; rfl)
    simp only [hpc] at hac
    cases hac
    exact h.moveProcess hi hp ho (by rfl) (by rw [hpc]; rfl)
      (fun _ => .inr ⟨rfl, false, rfl⟩)
  | resetting c =>
    simp only [hpc] at hac
    cases hac
    refine h.resetProcess hi hp (by rw [hpc]; rfl) ?_
    rw [hpc]
    cases c <;> rfl
  | postCommit =>
    obtain ⟨hr, hc⟩ := hps.resolve_left (fun hn => hn hpc)
    have ho : (s.tx t).view.ActiveAt p := by
      intro i q hq _
      simpa using all_eq_true.mp hr q (mem_of_getElem? hq)
    simp only [hpc] at hac
    split_ifs at hac with hs hcn
    · exact absurd (hc hs) (by omega)
    · cases hac
      rw [← setStatus_self s t, hs]
      exact h.moveProcess hi hp ho (by rfl) (by rw [hpc]; rfl) (fun _ => .inl rfl)
    · -- The transaction is at rest and not exclusive; it is shared.
      cases hac
      have hsh : (s.tx t).status = .shared := by
        have hu := (h.views t).usable hr
        have hw := (h.views t).status_ne_waiting hi
        have hg : (s.tx t).status.isGone = false := by
          by_contra hg
          rw [not_eq_false] at hg
          have hd := all_eq_true.mp ((h.views t).gone hg).2 pr
            (mem_of_getElem? hp)
          rw [hpc] at hd
          cases hd
        cases hcs : (s.tx t).status <;> simp_all [Tx.view, Status.isUsable, Status.isGone]
      have hhl := not_holds_of_shared (v := (s.tx t).view) hsh
        (not_resetting_of_resting hr)
      rw [← setStatus_self s t, hsh]
      exact h.moveProcess hi hp ho (by rfl) (by rw [hpc]; rfl)
        (fun hh => absurd hh hhl)
  | conclude =>
    have hs := h.status_of_pc hp (by rw [hpc]; rfl)
    have ho := h.others_inactive hp (by rw [hpc]; rfl)
    have hhl := h.not_holds_of_reporting hp (.inl hpc)
    simp only [hpc] at hac
    split_ifs at hac with hhk
    · cases hac
      rw [hs]
      exact h.moveProcess hi hp ho (by rfl) (by rw [hpc]; rfl)
        (fun hh => absurd hh hhl)
    · cases hac
      have hm : s.setStatus t .shared = s := hs ▸ setStatus_self s t
      have hf := h.finishCycle hi hp (.inl hpc)
      rwa [hm] at hf
  | concluding e =>
    have hs := h.status_of_pc hp (by rw [hpc]; rfl)
    have hpr : e = .shared := by
      have ht := (h.views t).fits pr (mem_of_getElem? hp)
      rw [show (s.tx t).view.status = .concluding from hs, hpc] at ht
      cases e <;> first | rfl | cases ht
    simp only [hpc, restore, hs, hpr] at hac
    cases hac
    exact h.finishCycle hi hp (.inr ⟨e, hpc⟩)
  | done =>
    simp only [hpc] at hac
    cases hac

section
variable (hi : (s.tx t).view.idle)
include hi

theorem Sound.addProcess (hs : (s.tx t).view.resting) (ha : pr.pc.isActive)
    (hd : pr.disposes → pr.pc.undoes ∧ (s.tx t).view.quiescent)
    (hf : pr.pc.fits status) (hl : status.isLocking) :
    (s.setTx t { s.tx t with
      status, processes := (s.tx t).processes ++ [pr] }).Sound := by
  refine h.replace ?_ ?_ (fun _ hc _ => hc)
  · refine (h.views t).addProcess hi hs ha hd hf ?_ ?_
    · rintro rfl
      cases hl
    · cases status <;> first | rfl | cases hl
  · intro r hr
    exact hr.mono (fun _ => .inl hl) id (fun c hc _ _ _ => .inl hc)

theorem Sound.rollback (hr : (s.tx t).view.resting) {disposes : Bool}
    (hq : disposes → (s.tx t).view.quiescent) : (s.rollback t disposes).Sound := by
  unfold System.rollback
  split_ifs with hmay hs
  · have he : (s.setStatus t .rollingBack).addProcess t { pc := .rolling, disposes }
        = s.setTx t { s.tx t with
            status := .rollingBack
            processes := (s.tx t).processes ++ [{ pc := .rolling, disposes }] } := by
      simp [System.addProcess, setStatus, setTx]
    rw [he]
    exact h.addProcess hi hr rfl (fun hd => ⟨rfl, hq hd⟩) rfl rfl
  · exact h.dispose hi (hq hs)
  · exact h

theorem Sound.commit (hr : (s.tx t).view.resting) : (s.commit t).Sound := by
  unfold System.commit
  split
  · exact h.rollback hi hr (fun hd => (by cases hd))
  · exact h
  · exact h
  · rename_i hh hds ho
    have hs : (s.tx t).status = .exclusive := by
      have hu := (h.views t).usable hr
      have hw := (h.views t).status_ne_waiting hi
      cases hc : (s.tx t).status <;> simp_all [Tx.view, Status.isUsable]
    have ha : (s.setTx t { s.tx t with
        status := .exclusive
        processes := (s.tx t).processes ++ [{ pc := .preCommit }] }).Sound :=
      h.addProcess hi hr rfl (fun hd => (by cases hd)) rfl rfl
    rwa [← hs] at ha

theorem Sound.reject (hs : (s.tx t).view.quiescent) : (s.reject t).Sound := by
  have hrs : (s.tx t).view.resting := by
    refine all_eq_true.mpr ?_
    intro q hq
    have hd := all_eq_true.mp hs q hq
    rw [beq_iff_eq] at hd
    rw [hd]
    rfl
  unfold System.reject
  split
  · refine h.dispose_of_idle hi hs
      ((frame_reset s t).trans (frame_dispose (s.reset t) t)) ?_ ?_
    · rw [dispose_view, reset_view]
    · intro r hr
      exact reset_lockedBy (reset_lockedBy hr).1
  · exact h.rollback hi hrs (fun _ => hs)

end

end

/-! ### Runs -/

/-- The calls that a transaction is used with: it is committed, rolled back and disposed of when no
request is under way, nor another commit or rollback, and it is not taken up again between the end
of a commit or rollback and the reset that belongs to it. -/
def orderly (s : System) : TxEvent → Bool
  | .lock t _ | .begin t | .beginSync t => !(s.tx t).view.closing
  | .commit t | .rollback t => (s.tx t).view.idle && (s.tx t).view.resting
  | .reject t | .dispose t => (s.tx t).view.idle && (s.tx t).view.quiescent
  | .proceed t p _ _ => s.mayProceed t p
  | _ => true

theorem Sound.act (h : s.Sound) (ho : s.orderly v) (ha : s.act v = some s') : s'.Sound := by
  cases v with
  | addResources t e =>
    cases ha
    exact h.addResources t e
  | addResourcesSync t e =>
    cases ha
    exact h.addResourcesSync t e
  | lock t e =>
    cases ha
    exact h.lock (by simpa [orderly] using ho) e
  | begin t =>
    cases ha
    exact h.begin (by simpa [orderly] using ho)
  | beginSync t =>
    cases ha
    exact h.beginSync (by simpa [orderly] using ho)
  | onShared t quiet once =>
    cases ha
    unfold System.onShared
    split
    · exact h
    · exact h.of_sameViews (sameViews_setTx s rfl)
  | goOn t k => exact h.goOn ha
  | commit t =>
    cases ha
    obtain ⟨hi, hr⟩ := (and_eq_true _ _).mp ho
    exact h.commit hi hr
  | rollback t =>
    cases ha
    obtain ⟨hi, hr⟩ := (and_eq_true _ _).mp ho
    exact h.rollback hi hr (fun hd => (by cases hd))
  | reject t =>
    cases ha
    obtain ⟨hi, hq⟩ := (and_eq_true _ _).mp ho
    exact h.reject hi hq
  | dispose t =>
    cases ha
    obtain ⟨hi, hq⟩ := (and_eq_true _ _).mp ho
    exact h.dispose hi hq
  | proceed t p ok hooks => exact h.proceed ho ha

/-! ### A transaction that is destroyed stays so -/

theorem Sound.gone_goOn (h : s.Sound) (hg : (s.tx t).status.isGone) (k : Nat) :
    s.goOn t k = none := by
  rw [System.goOn, Option.bind_eq_none_iff]
  intro e hk
  have hd := all_eq_true.mp ((h.views t).gone hg).1 e.core
    (mem_of_getElem? (view_cores_getElem? hk))
  cases hs : e.stage <;> first | rfl | (rw [beq_iff_eq, core, hs] at hd; cases hd)

theorem Sound.gone_proceed (h : s.Sound) (hg : (s.tx t).status.isGone) (p : Nat)
    (ok hooks : Bool) : s.proceed t p ok hooks = none := by
  rw [System.proceed, Option.bind_eq_none_iff]
  intro pr hp
  have hd := all_eq_true.mp ((h.views t).gone hg).2 pr (mem_of_getElem? hp)
  rw [beq_iff_eq] at hd
  simp [hd]

theorem dispose_status (s : System) (t : Nat) : ((s.dispose t).tx t).status = .destroyed :=
  congrArg status (dispose_view s t)

theorem Sound.destroyed_act (h : s.Sound) (hd : (s.tx t).status = .destroyed)
    (ha : s.act v = some s') : (s'.tx t).status = .destroyed := by
  by_cases ht : t = v.tx
  case neg =>
    rw [← hd]
    exact congrArg status ((act_frame ha).views t ht)
  subst ht
  have hg : (s.tx v.tx).status.isGone := by
    rw [hd]
    rfl
  cases v with
  | goOn t k =>
    have hn : s.goOn t k = none := h.gone_goOn hg k
    rw [System.act, hn] at ha
    cases ha
  | proceed t p ok hooks =>
    have hn : s.proceed t p ok hooks = none := h.gone_proceed hg p ok hooks
    rw [System.act, hn] at ha
    cases ha
  | dispose t =>
    cases ha
    exact dispose_status s t
  | reject t =>
    cases ha
    have hs : (s.tx t).status = .destroyed := hd
    simp only [System.reject, hs, System.rollback, Tx.isAvailable]
    exact dispose_status s t
  -- the others leave a transaction alone that is gone
  | onShared t | addResources t | addResourcesSync t | lock t | begin t | beginSync t | commit t
  | rollback t =>
    cases ha
    have hs : (s.tx t).status = .destroyed := hd
    simp [TxEvent.tx, System.onShared, System.lock, System.addResources, System.addResourcesSync,
      System.begin, System.beginSync, System.commit, System.rollback, Tx.isAvailable, hs]

/-! ### The result -/

theorem Sound.step (h : s.Sound)
    (hs : guarded step (·.orderly ·) s v = some s') : s'.Sound := by
  obtain ⟨ho, ha⟩ := guarded_eq_some.mp hs
  unfold System.step at ha
  split_ifs at ha
  exact h.act ho ha

theorem run_sound {c : Nat} {f : Nat → Nat} {i : Nat → Bool} {e : List TxEvent}
    (hu : Run (guarded step (·.orderly ·)) (initial c f i) e s) : s.Sound :=
  run_invariant (I := Sound) (fun _ _ _ hs h => h.step hs) hu
    (initial_sound c f i)

/-- In orderly use, a transaction that is shared with nothing in progress, or destroyed, or that
reports the outcome, has no lock, and a destroyed one stays destroyed. -/
theorem locks_released {count : Nat} {reference : Nat → Nat} {isReadOnly : Nat → Bool}
    {events : List TxEvent} (hrun : Run (guarded step (·.orderly ·))
      (initial count reference isReadOnly) events s) :
    (∀ t, ((s.tx t).status = .shared ∧ (s.tx t).view.resting = true) ∨
        (s.tx t).status = .destroyed → ∀ r, s.lockedBy r ≠ some t) ∧
    (∀ t, ∀ p ∈ (s.tx t).processes, (p.pc = .conclude ∨ ∃ previous, p.pc = .concluding previous) →
      ∀ r, s.lockedBy r ≠ some t) ∧ (∀ t events' s', (s.tx t).status = .destroyed →
      Run (guarded step (·.orderly ·)) s events' s' →
      (s'.tx t).status = .destroyed) := by
  have h := run_sound hrun
  refine ⟨?_, ?_, ?_⟩
  · rintro t (⟨hs, hr⟩ | hd)
    · exact h.not_locked (not_holds_of_shared hs (not_resetting_of_resting hr))
    · exact h.not_locked (not_holds_of_status (.inr (.inr hd)))
  · intro t p hp hc
    obtain ⟨i, hi⟩ := getElem?_of_mem hp
    exact h.not_locked (h.not_holds_of_reporting hi hc)
  · intro t events' s' hd hr'
    have hkp : s'.Sound ∧ (s'.tx t).status = .destroyed := by
      refine run_invariant (I := fun s => s.Sound ∧ (s.tx t).status = .destroyed) ?_ hr'
        ⟨h, hd⟩
      rintro s₁ event s₂ ht ⟨h₁, hd₁⟩
      refine ⟨h₁.step ht, ?_⟩
      have ha := (guarded_eq_some.mp ht).2
      unfold System.step at ha
      split_ifs at ha
      exact h₁.destroyed_act hd₁ ha
    exact hkp.2

/-- One transaction waits for the lock of another, which commits. -/
theorem locks_released_handover : ∃ s,
    exec (guarded step (·.orderly ·)) (initial 2 id (fun _ => false))
      [.addResourcesSync 0 [7], .beginSync 0, .addResources 1 [7], .begin 1, .commit 0,
        .proceed 0 0 true false, .proceed 0 0 true false, .proceed 0 0 true false,
        .proceed 0 0 true false, .proceed 0 0 true false, .proceed 0 0 true false,
        .proceed 0 0 true false, .goOn 1 0, .goOn 1 0, .goOn 1 0] = some s ∧
    (s.tx 0).status = .shared ∧ s.lockedBy 7 = some 1 ∧ ∀ r, s.lockedBy r ≠ some 0 := by
  refine exec_and_of_run (P := fun s => (s.tx 0).status = .shared ∧
    (s.tx 0).view.resting ∧ s.lockedBy 7 = some 1) ⟨_, rfl, by decide⟩ ?_
  rintro s hu ⟨hs, hr, hl⟩
  exact ⟨hs, hl, (locks_released hu).1 0 (.inl ⟨hs, hr⟩)⟩

/-- A transaction is disposed of while its `begin` waits. When the lock is free, it takes it, and
it becomes exclusive. -/
theorem locks_outlive : ∃ s₁ s₂, exec step (initial 2 id (fun _ => false))
      [.addResourcesSync 0 [7], .beginSync 0, .addResources 1 [7], .begin 1, .dispose 1,
        .rollback 0, .proceed 0 0 true false, .proceed 0 0 true false, .goOn 1 0, .goOn 1 0]
      = some s₁ ∧ (s₁.tx 1).status = .destroyed ∧ s₁.lockedBy 7 = some 1 ∧
    exec step s₁ [.goOn 1 0] = some s₂ ∧ (s₂.tx 1).status = .exclusive :=
  ⟨_, _, rfl, by decide, by decide, rfl, by decide⟩

end System

end MatterJs.Transaction
