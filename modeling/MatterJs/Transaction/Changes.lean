import MatterJs.Transaction.View

/-!
# What a step can do

Every call and every continuation is made of a few changes to one transaction: of what is its own,
of its locks, of its requests, and the reset that tells others. What they leave alone is said once
here.
-/
namespace MatterJs.Transaction

open IndexedList Relation List Function

/-- A listener that is added returns nothing. -/
def TxEvent.quiet : TxEvent → Bool
  | onShared _ quiet _ => quiet
  | _ => true

namespace System

variable {s s' : System} {t u k p r : Nat}

/-! ### What an operation leaves alone -/

section

variable (s)

@[simp] theorem setTx_self (t : Nat) (tx : Tx) : (s.setTx t tx).tx t = tx :=
  update_self ..

@[simp] theorem setTx_of_ne (h : u ≠ t) (tx : Tx) : (s.setTx t tx).tx u = s.tx u :=
  update_of_ne h ..

variable (t)

@[simp] theorem setTx_lockedBy (tx : Tx) : (s.setTx t tx).lockedBy = s.lockedBy := rfl

@[simp] theorem setTx_reference (tx : Tx) : (s.setTx t tx).reference = s.reference := rfl

@[simp] theorem setTx_count (tx : Tx) : (s.setTx t tx).count = s.count := rfl

variable (rs : List Nat)

@[simp] theorem takeLocks_tx : (s.takeLocks t rs).tx = s.tx := rfl

@[simp] theorem takeLocks_reference : (s.takeLocks t rs).reference = s.reference := rfl

theorem takeLocks_lockedBy (r : Nat) :
    (s.takeLocks t rs).lockedBy r = if r ∈ rs then some t else s.lockedBy r := rfl

/-- The two systems differ in what transaction `t` is and holds, and in who waits for whom. -/
structure Frame (s s' : System) (t : Nat) : Prop where
  reference : s'.reference = s.reference
  views : ∀ u, u ≠ t → (s'.tx u).view = (s.tx u).view
  locks : ∀ r u, u ≠ t → (s'.lockedBy r = some u ↔ s.lockedBy r = some u)

theorem Frame.refl : Frame s s t :=
  ⟨rfl, fun _ _ => rfl, fun _ _ _ => Iff.rfl⟩

end

variable {s'' : System} {rs : List Nat} {rq : Request}

theorem Frame.trans (h : Frame s s' t) (h' : Frame s' s'' t) : Frame s s'' t := by
  refine ⟨h'.reference.trans h.reference, ?_, ?_⟩
  · intro u hu
    exact (h'.views u hu).trans (h.views u hu)
  · intro r u hu
    exact (h'.locks r u hu).trans (h.locks r u hu)

theorem frame_setTx (s : System) (t : Nat) (tx : Tx) : Frame s (s.setTx t tx) t := by
  refine ⟨rfl, ?_, fun _ _ _ => Iff.rfl⟩
  intro u hu
  rw [setTx_of_ne s hu]

theorem frame_takeLocks (h : s.lockableSync t rs) : Frame s (s.takeLocks t rs) t := by
  refine ⟨rfl, fun _ _ => rfl, ?_⟩
  intro r u hu
  rw [takeLocks_lockedBy]
  split_ifs with hr
  · have hfree := all_eq_true.mp h r hr
    simp only [Bool.or_eq_true, beq_iff_eq] at hfree
    rcases hfree with hfree | hfree
    · simp [hfree, Ne.symm hu]
    · simp [hfree]
  · exact Iff.rfl

theorem frame_releaseLocks (s : System) (t : Nat) (rs : List Nat) :
    Frame s (s.releaseLocks t rs) t := by
  refine ⟨rfl, fun _ _ => rfl, ?_⟩
  intro r u hu
  simp only [releaseLocks]
  split_ifs with hr
  · simp [hr.2, Ne.symm hu]
  · exact Iff.rfl

theorem lockableSync_of_blockedBy (h : s.blockedBy t rs = []) : s.lockableSync t rs := by
  rw [blockedBy, dedup_eq_nil, filterMap_eq_nil_iff] at h
  refine all_eq_true.mpr ?_
  intro r hr
  have hfree := h r hr
  cases hl : s.lockedBy r with
  | none => rfl
  | some u =>
    rw [hl, Option.filter_eq_none_iff] at hfree
    have hu : u = t := by simpa using hfree u rfl
    simp [hu]

/-- A request that is replaced by one of the same core does not show. -/
theorem view_setRequest {tx : Tx} {r' : Request} (hk : tx.requests[k]? = some rq)
    (hcr : r'.core = rq.core) : (tx.setRequest k r').view = tx.view := by
  have hc : (tx.requests.set k r').map Request.core
      = tx.requests.map Request.core := by
    refine ext_getElem? (fun i => ?_)
    rw [getElem?_map, getElem?_map, getElem?_set]
    split_ifs with hi hl
    · subst hi
      rw [hk, Option.map_some, Option.map_some, hcr]
    · subst hi
      exact absurd (List.getElem?_eq_some_iff.mp hk).1 hl
    · rfl
  simp [Tx.view, Tx.setRequest, hc]

theorem view_wake (tx : Tx) (k o : Nat) : (tx.wake k o).view = tx.view := by
  unfold Tx.wake
  cases hk : tx.requests[k]? with
  | none => rfl
  | some e =>
    dsimp only
    split_ifs with ho hw
    · refine view_setRequest hk ?_
      simp only [Request.core, hw]
      rfl
    · exact view_setRequest hk rfl
    · exact view_setRequest hk rfl

/-- The listeners change what others wait for, and nothing else. -/
structure SameViews (s s' : System) : Prop where
  reference : s'.reference = s.reference
  lockedBy : s'.lockedBy = s.lockedBy
  views : ∀ u, (s'.tx u).view = (s.tx u).view

theorem SameViews.refl (s : System) : SameViews s s := ⟨rfl, rfl, fun _ => rfl⟩

theorem SameViews.trans (h : SameViews s s') (h' : SameViews s' s'') : SameViews s s'' :=
  ⟨h'.reference.trans h.reference, h'.lockedBy.trans h.lockedBy,
    fun u => (h'.views u).trans (h.views u)⟩

theorem SameViews.frame (h : SameViews s s') (t : Nat) : Frame s s' t :=
  ⟨h.reference, fun u _ => h.views u, fun r u _ => by rw [h.lockedBy]⟩

theorem sameViews_setTx (s : System) {t : Nat} {tx : Tx} (h : tx.view = (s.tx t).view) :
    SameViews s (s.setTx t tx) := by
  refine ⟨rfl, rfl, ?_⟩
  intro u
  by_cases hu : u = t
  · rw [hu, setTx_self, h]
  · rw [setTx_of_ne s hu]

theorem sameViews_emit (s : System) (u : Nat) (ls : List Listener) : SameViews s (s.emit u ls) := by
  induction ls generalizing s with
  | nil => exact .refl s
  | cons l ls ih =>
    cases l with
    | waiter t k =>
      refine SameViews.trans (.trans (sameViews_setTx s ?_) (sameViews_setTx _ ?_)) (ih _)
      · rfl
      · exact view_wake _ _ _
    | other q once =>
      have hr : SameViews s (if once then
          s.setTx u { s.tx u with listeners := (s.tx u).listeners.erase (.other q once) }
          else s) := by
        split_ifs
        · exact sameViews_setTx s rfl
        · exact .refl s
      cases q with
      | true => exact hr.trans (ih _)
      | false => exact hr

theorem sameViews_waitFor (s : System) (t k : Nat) (others : List Nat)
    (hk : (s.tx t).requests[k]? = some rq) (hs : rq.stage.progress = .pending) :
    SameViews s (s.waitFor t k rq others) := by
  have hl : ∀ u, (if u ∈ others ∧ (s.tx u).status ≠ .readOnly then
      ({ s.tx u with listeners := (s.tx u).listeners ++ [.waiter t k] } : Tx)
      else s.tx u).view = (s.tx u).view := by
    intro u
    split_ifs <;> rfl
  refine ⟨rfl, rfl, ?_⟩
  intro u
  by_cases hu : u = t
  · subst hu
    have hc : ({ rq with
        stage := .waiting
        others := others.map (fun u => (u, (s.tx u).resets)) } : Request).core
        = rq.core := by
      simp only [Request.core, hs]
      rfl
    simp only [waitFor, update_self]
    split_ifs
    · exact view_setRequest hk hc
    · exact view_setRequest hk hc
  · simp only [waitFor, update_of_ne hu]
    exact hl u

theorem acquireLocks_locked (h : s.acquireLocks t rs = .locked) : s.lockableSync t rs := by
  simp only [acquireLocks] at h
  split_ifs at h with hb
  exact lockableSync_of_blockedBy hb

/-! ### Resets -/

section

variable (s) (t)

/-- A reset before the listeners hear of it. -/
def released : System :=
  (s.releaseLocks t (s.resourceSet (s.tx t).resources)).setTx t
    { s.tx t with resources := [], status := .shared, resets := (s.tx t).resets + 1 }

theorem reset_eq : s.reset t = (s.released t).emit t (s.tx t).listeners := by
  simp only [reset, setTx_self]
  rfl

theorem sameViews_reset : SameViews (s.released t) (s.reset t) := by
  exact sameViews_emit ..

theorem frame_reset : Frame s (s.reset t) t :=
  ((frame_releaseLocks ..).trans (frame_setTx ..)).trans ((sameViews_reset s t).frame t)

theorem frame_dispose : Frame s (s.dispose t) t :=
  (frame_reset s t).trans (frame_setTx ..)

/-! ### Changes -/

/-- A change that a step makes. `quiet` is about a listener that is added. -/
inductive Change (quiet : Bool) (t : Nat) (s : System) : System → Prop
  | own (status : Status) (resources : List Nat) (processes : List Process) :
      Change quiet t s (s.setTx t { s.tx t with status, resources, processes })
  | takeLocks {resources : List Nat} (hfree : s.lockableSync t resources) :
      Change quiet t s (s.takeLocks t resources)
  | addRequest {request : Request} (hstage : request.stage = .ready) :
      Change quiet t s (s.setTx t { s.tx t with requests := (s.tx t).requests ++ [request] })
  /-- A request that does not wait goes on, and does not wait then. -/
  | setRequest {k : Nat} {request : Request} {stage : Stage}
      (hk : (s.tx t).requests[k]? = some request) (hwas : request.stage ≠ .waiting)
      (hstage : stage ≠ .waiting) {waitingOn : Option Nat}
      (hwaitingOn : waitingOn = none ∨ waitingOn = (s.tx t).waitingOn) :
      Change quiet t s
        (s.setTx t { (s.tx t).setRequest k { request with stage } with waitingOn })
  | waitFor {k : Nat} {request : Request} {others : List Nat}
      (hk : (s.tx t).requests[k]? = some request) (hstage : request.stage = .ready)
      (hwait : s.acquireLocks t request.resources = .wait others) :
      Change quiet t s (s.waitFor t k request others)
  | reset : Change quiet t s (s.reset t)
  | listen (once : Bool) :
      Change quiet t s
        (s.setTx t { s.tx t with listeners := (s.tx t).listeners ++ [.other quiet once] })

/-- The changes of a step. -/
def Changes (quiet : Bool) (t : Nat) : System → System → Prop := ReflTransGen (Change quiet t)

theorem frame_waitFor (t k : Nat) (rq : Request) (o : List Nat) :
    Frame s (s.waitFor t k rq o) t := by
  refine ⟨rfl, ?_, fun _ _ _ => Iff.rfl⟩
  intro u hu
  simp only [waitFor, update_of_ne hu]
  split_ifs <;> rfl

end

variable {q : Bool}

theorem Change.frame (h : Change q t s s') : Frame s s' t := by
  cases h with
  | own st e pr => exact frame_setTx ..
  | takeLocks hfree => exact frame_takeLocks hfree
  | addRequest hs => exact frame_setTx ..
  | setRequest hk hwas hs hw => exact frame_setTx ..
  | waitFor hk hs hwait => exact frame_waitFor ..
  | reset => exact frame_reset s t
  | listen once => exact frame_setTx ..

theorem Changes.frame (h : Changes q t s s') : Frame s s' t := by
  induction h with
  | refl => exact .refl s t
  | tail _ hc ih => exact ih.trans hc.frame

theorem Changes.refl (s : System) : Changes q t s s := ReflTransGen.refl

theorem Changes.then (h : Changes q t s s') (h' : Changes q t s' s'') :
    Changes q t s s'' := ReflTransGen.trans h h'

theorem Change.changes (h : Change q t s s') : Changes q t s s' := ReflTransGen.single h

section

variable (s) (t)

theorem changes_setStatus (ss : Status) : Changes q t s (s.setStatus t ss) :=
  (Change.own ss (s.tx t).resources (s.tx t).processes).changes

theorem changes_setProcess (t p : Nat) (pr : Process) : Changes q t s (s.setProcess t p pr) :=
  (Change.own (s.tx t).status (s.tx t).resources ((s.tx t).processes.set p pr)).changes

theorem changes_addProcess (pr : Process) : Changes q t s (s.addProcess t pr) :=
  (Change.own (s.tx t).status (s.tx t).resources ((s.tx t).processes ++ [pr])).changes

theorem changes_putResources (rs : List Nat) : Changes q t s (s.putResources t rs) :=
  (Change.own (s.tx t).status ((s.tx t).resources ++ rs) (s.tx t).processes).changes

theorem changes_reset : Changes q t s (s.reset t) :=
  Change.reset.changes

theorem changes_dispose : Changes q t s (s.dispose t) :=
  (changes_reset s t).then (changes_setStatus ..)

end

/-! ### The operations -/

theorem changes_setRequest {stage : Stage}
    (hk : (s.tx t).requests[k]? = some rq) (hwas : rq.stage ≠ .waiting) (hs : stage ≠ .waiting) :
    Changes q t s (s.setTx t ((s.tx t).setRequest k { rq with stage })) :=
  (Change.setRequest hk hwas hs (.inr rfl)).changes

theorem changes_round (hk : (s.tx t).requests[k]? = some rq)
    (hs : rq.stage = .ready) : Changes q t s (s.round t k rq) := by
  have hwas : rq.stage ≠ .waiting := by
    rw [hs]
    decide
  have hf : Changes q t s
      (s.setTx t ((s.tx t).setRequest k { rq with stage := .failed })) :=
    changes_setRequest hk hwas (by decide)
  unfold round
  cases ho : s.acquireLocks t rq.resources with
  | locked =>
    refine (Change.takeLocks (acquireLocks_locked ho)).changes.then ?_
    exact changes_setRequest (s := s.takeLocks t rq.resources) hk hwas (by decide)
  | wait o => exact (Change.waitFor hk hs ho).changes
  | deadlock => exact hf
  | unavailable => exact hf
  | alreadyWaiting => exact hf

section

variable (s) (t)

theorem changes_request (pr : Purpose) (rs : List Nat) : Changes q t s (s.request t pr rs) := by
  refine (Change.addRequest rfl).changes.then (changes_round ?_ rfl)
  rw [setTx_self]
  exact getElem?_concat_length

variable (rs)

theorem changes_addSync : Changes q t s (s.addResourcesSync t rs) := by
  unfold addResourcesSync
  split
  · split_ifs with hfree
    · exact (Change.takeLocks hfree).changes.then (changes_putResources ..)
    · exact .refl s
  · exact changes_putResources ..
  · exact .refl s

theorem changes_addResources : Changes q t s (s.addResources t rs) := by
  unfold addResources
  split
  · exact changes_request ..
  · exact changes_addSync ..

theorem changes_begin : Changes q t s (s.begin t) := by
  unfold begin
  split
  · exact (changes_setStatus ..).then (changes_request ..)
  · exact .refl s

theorem changes_beginSync : Changes q t s (s.beginSync t) := by
  unfold beginSync
  split
  · split_ifs with hfree
    · exact (Change.takeLocks hfree).changes.then (changes_setStatus ..)
    · exact .refl s
  · exact .refl s

theorem changes_lock : Changes q t s (s.lock t rs) := by
  unfold lock
  split_ifs
  · split
    · exact (changes_addSync ..).then (changes_beginSync ..)
    · exact (changes_addSync ..).then (changes_beginSync ..)
    · exact .refl s
  · exact changes_addResources ..

end

theorem changes_goOn (hg : s.goOn t k = some s') : Changes q t s s' := by
  obtain ⟨e, hk, ha⟩ := Option.bind_eq_some_iff.mp hg
  split at ha
  case h_1 hs =>
    cases ha
    exact (Change.setRequest hk (by rw [hs]; decide) (by decide) (.inl rfl)).changes
  case h_2 hs =>
    cases ha
    exact changes_round hk hs
  case h_3 hs =>
    have hd : Changes q t s
        (s.setTx t ((s.tx t).setRequest k { e with stage := .done })) :=
      changes_setRequest hk (by rw [hs]; decide) (by decide)
    split at ha
    · cases ha
      exact hd.then (changes_setStatus ..)
    · cases ha
      exact hd.then (changes_addSync ..)
  case h_4 hs =>
    have hd : Changes q t s
        (s.setTx t ((s.tx t).setRequest k { e with stage := .done })) :=
      changes_setRequest hk (by rw [hs]; decide) (by decide)
    split at ha
    · cases ha
      exact hd.then (changes_setStatus ..)
    · cases ha
      exact hd
  · cases ha
  · cases ha

theorem changes_finishCycle (s : System) (t p : Nat) (pr : Process) :
    Changes q t s (s.finishCycle t p pr) := by
  unfold finishCycle
  split_ifs
  · exact changes_setProcess ..
  · exact (changes_setProcess ..).then (changes_dispose ..)
  · exact changes_setProcess ..

theorem changes_enter (s : System) (t p : Nat) (e : Status) (pr : Process) :
    Changes q t s ((s.setStatus t e).setProcess t p pr) :=
  (changes_setStatus ..).then (changes_setProcess ..)

theorem changes_rollbackAndConclude (s : System) (t p : Nat) (pr : Process) :
    Changes q t s (s.rollbackAndConclude t p pr) := by
  unfold rollbackAndConclude
  split_ifs
  · exact changes_enter ..
  · exact changes_finishCycle ..

theorem changes_restore (s : System) (t : Nat) (d ps : Status) :
    Changes q t s (s.restore t d ps) := by
  unfold restore
  split_ifs
  · exact changes_setStatus ..
  · exact .refl s

theorem changes_proceed {ok hooks : Bool} (hpr : s.proceed t p ok hooks = some s') :
    Changes q t s s' := by
  obtain ⟨pr, hp, ha⟩ := Option.bind_eq_some_iff.mp hpr
  split at ha
  · split_ifs at ha
    · cases ha
      exact changes_enter ..
    · cases ha
      exact changes_setProcess ..
    · cases ha
      exact changes_rollbackAndConclude ..
  · split_ifs at ha
    · cases ha
      exact (changes_restore ..).then (changes_setProcess ..)
    · cases ha
      exact (changes_restore ..).then (changes_rollbackAndConclude ..)
  · split_ifs at ha
    · cases ha
      exact changes_enter ..
    · cases ha
      exact changes_setProcess ..
  · split_ifs at ha
    · cases ha
      exact changes_enter ..
    · cases ha
      exact changes_enter ..
  · cases ha
    exact changes_setProcess ..
  · cases ha
    exact changes_enter ..
  · cases ha
    exact (changes_setProcess ..).then (changes_reset ..)
  · split_ifs at ha
    · cases ha
      exact changes_setProcess ..
    · cases ha
      exact changes_setProcess ..
    · cases ha
      exact changes_setProcess ..
  · split_ifs at ha
    · cases ha
      exact changes_enter ..
    · cases ha
      exact changes_finishCycle ..
  · cases ha
    exact (changes_restore ..).then (changes_finishCycle ..)
  · cases ha

section

variable (s) (t)

theorem changes_rollback (d : Bool) : Changes q t s (s.rollback t d) := by
  unfold rollback
  split_ifs
  · exact (changes_setStatus ..).then (changes_addProcess ..)
  · exact changes_dispose ..
  · exact .refl s

theorem changes_commit : Changes q t s (s.commit t) := by
  unfold commit
  split
  · exact changes_rollback ..
  · exact .refl s
  · exact .refl s
  · exact changes_addProcess ..

theorem changes_reject : Changes q t s (s.reject t) := by
  unfold reject
  split
  · exact (changes_reset ..).then (changes_dispose ..)
  · exact changes_rollback ..

theorem changes_onShared (q once : Bool) : Changes q t s (s.onShared t q once) := by
  unfold onShared
  split
  · exact .refl s
  · exact (Change.listen once).changes

end

variable {e : TxEvent}

theorem act_changes (ha : s.act e = some s') : Changes e.quiet e.tx s s' := by
  cases e with
  | addResources t re =>
    cases ha
    exact changes_addResources ..
  | addResourcesSync t re =>
    cases ha
    exact changes_addSync ..
  | lock t re =>
    cases ha
    exact changes_lock ..
  | begin t =>
    cases ha
    exact changes_begin ..
  | beginSync t =>
    cases ha
    exact changes_beginSync ..
  | onShared t q once =>
    cases ha
    exact changes_onShared ..
  | goOn t k => exact changes_goOn ha
  | commit t =>
    cases ha
    exact changes_commit ..
  | rollback t =>
    cases ha
    exact changes_rollback ..
  | reject t =>
    cases ha
    exact changes_reject ..
  | dispose t =>
    cases ha
    exact changes_dispose ..
  | proceed t p ok hooks => exact changes_proceed ha

theorem act_frame (ha : s.act e = some s') : Frame s s' e.tx :=
  (act_changes ha).frame

end System

end MatterJs.Transaction
