import MatterJs.Transaction.Tx
import MatterJs.Foundation.IndexedList

/-!
# What a transaction may hold

A transaction apart from the others: its requests, its commits and rollbacks, and its status. A
reset releases the locks of the resources that are recorded; a request that is still under way
takes its locks later, and records its resources later yet.
-/
namespace MatterJs.Transaction

open IndexedList List

inductive Progress
  | pending
  | locked
  | done
  deriving DecidableEq

/-- A request, without what it waits for. -/
structure Core where
  purpose : Purpose
  resources : List Nat
  progress : Progress
  deriving DecidableEq

def Stage.progress : Stage → Progress
  | .locked => .locked
  | .done => .done
  | _ => .pending

def Request.core (request : Request) : Core where
  purpose := request.purpose
  resources := request.resources
  progress := request.stage.progress

/-- A transaction, without what it waits for and who waits for it. -/
structure View where
  status : Status
  resources : List Nat
  cores : List Core
  processes : List Process

def Tx.view (tx : Tx) : View where
  status := tx.status
  resources := tx.resources
  cores := tx.requests.map Request.core
  processes := tx.processes

/-- The process is between its start and its end, and not in the post-commit hooks, which may use
the transaction. -/
def Pc.isActive : Pc → Bool
  | .postCommit | .done => false
  | _ => true

/-- The process is a rollback, or reports. -/
def Pc.undoes : Pc → Bool
  | .rolling | .resetting false | .conclude | .concluding _ => true
  | _ => false

variable {pc : Pc}

theorem Pc.isActive_of_undoes (h : pc.undoes) : pc.isActive := by
  cases pc <;> first | rfl | cases h

/-- The status that goes with a phase. -/
def Pc.fits : Pc → Status → Bool
  | .preCommit, .exclusive | .settled, .settled | .enterCommit, .exclusive
  | .phaseOne, .committingPhaseOne | .phaseTwo, .committingPhaseTwo | .rolling, .rollingBack
  | .resetting _, .committingPhaseTwo | .resetting _, .shared | .conclude, .shared
  | .concluding .shared, .concluding | .postCommit, _ | .done, _ => true
  | _, _ => false

/-- The status that a phase needs, where it needs one. -/
def Pc.status : Pc → Option Status
  | .preCommit | .enterCommit => some .exclusive
  | .settled => some .settled
  | .phaseOne => some .committingPhaseOne
  | .phaseTwo => some .committingPhaseTwo
  | .rolling => some .rollingBack
  | .conclude => some .shared
  | .concluding _ => some .concluding
  | .resetting _ | .postCommit | .done => none

theorem Pc.status_of_fits {s status' : Status} (hf : pc.fits s)
    (hs : pc.status = some status') : s = status' := by
  cases pc <;> cases hs <;> cases s <;> first | rfl | simp [Pc.fits] at hf

theorem Pc.fits_of_inactive (h : pc.isActive = false) (s : Status) : pc.fits s := by
  cases pc <;> first | rfl | cases h

/-- The status of a transaction that is not being committed or rolled back. -/
def Status.isUsable : Status → Bool
  | .readOnly | .shared | .waiting | .exclusive | .destroyed => true
  | _ => false

/-- The status of a transaction that has its locks. -/
def Status.isLocking : Status → Bool
  | .exclusive | .settled | .committingPhaseOne | .committingPhaseTwo | .rollingBack => true
  | _ => false

def Status.isGone : Status → Bool
  | .readOnly | .destroyed => true
  | _ => false

/-- A process may go from one place to another, where the status is as given. -/
def Pc.mayMove (pc pc' : Pc) (status : Status) : Bool :=
  pc != .done && (!pc.undoes || pc' == .done || pc'.undoes) && pc'.fits status &&
    (pc'.isActive || status.isUsable) && status != .waiting && !status.isGone

namespace View

variable (v : View)

def idle : Bool := v.cores.all (·.progress == .done)

/-- Nothing is being committed or rolled back, but for post-commit hooks. -/
def resting : Bool := v.processes.all (fun p => !p.pc.isActive)

/-- Nothing is being committed or rolled back. -/
def quiescent : Bool := v.processes.all (·.pc == .done)

/-- A commit or rollback is about to reset or to report. -/
def closing : Bool :=
  v.processes.any (fun p =>
    match p.pc with
    | .resetting _ | .conclude => true
    | _ => false)

variable {f : Nat → Nat} {v}

structure Sound (reference : Nat → Nat) (v : View) : Prop where
  waiting : v.status = .waiting ↔
    ∃ (k : Nat) (c : Core), v.cores[k]? = some c ∧ c.purpose = .begin ∧ c.progress ≠ .done
  beginOnce : ∀ (k k' : Nat) (c c' : Core), v.cores[k]? = some c → v.cores[k']? = some c' →
    c.purpose = .begin → c'.purpose = .begin → c.progress ≠ .done → c'.progress ≠ .done → k = k'
  beginning : ∀ c ∈ v.cores, c.purpose = .begin → c.progress ≠ .done →
    c.resources = v.resources.map reference
  adding : ∀ c ∈ v.cores, ∀ resources, c.purpose = .addResources resources →
    c.progress ≠ .done → v.status = .exclusive ∧ c.resources = resources.map reference
  fits : ∀ p ∈ v.processes, p.pc.fits v.status
  activeOnce : ∀ (i j : Nat) (p q : Process), v.processes[i]? = some p →
    v.processes[j]? = some q → p.pc.isActive → q.pc.isActive → i = j
  usable : v.resting → v.status.isUsable
  gone : v.status.isGone → v.idle ∧ v.quiescent
  disposing : ∀ (i : Nat) (p : Process), v.processes[i]? = some p → p.disposes →
    p.pc ≠ .done → p.pc.undoes ∧
      ∀ (j : Nat) (q : Process), v.processes[j]? = some q → j ≠ i → q.pc = .done

/-- The transaction may hold locks. -/
def Holds (v : View) : Prop :=
  v.status.isLocking ∨
    (v.status = .shared ∧ ∃ p ∈ v.processes, ∃ committed, p.pc = .resetting committed) ∨
    (v.status = .waiting ∧ ∃ c ∈ v.cores, c.purpose = .begin ∧ c.progress = .locked)

/-- The lock of a resource is one that a reset, or the request that took it, takes care of. -/
def Owns (reference : Nat → Nat) (v : View) (r : Nat) : Prop :=
  v.Holds ∧ (r ∈ v.resources.map reference ∨
    ∃ c ∈ v.cores, (∃ resources, c.purpose = .addResources resources) ∧ c.progress = .locked ∧
      r ∈ c.resources)

/-- No process but the given one is active. -/
def ActiveAt (v : View) (p : Nat) : Prop :=
  ∀ (i : Nat) (q : Process), v.processes[i]? = some q → i ≠ p → q.pc.isActive = false

/-- The request at `k`, which is `c`, has ended. -/
def endRequest (v : View) (k : Nat) (c : Core) (status : Status) : View :=
  { v with status, cores := v.cores.set k { c with progress := .done } }

variable {c d : Core} {r k : Nat} {s : Status} {progress : Progress} {o : List Core}

section

variable (hidle : v.idle)
include hidle

theorem done_of_idle (hc : c ∈ v.cores) : c.progress = .done := by
  simpa using all_eq_true.mp hidle c hc

theorem not_locked_of_idle (hc : c ∈ v.cores) : c.progress ≠ .locked := by
  rw [done_of_idle hidle hc]
  decide

/-- Without a request under way, the status and the processes are all there is. -/
theorem Sound.of_idle (hw : v.status ≠ .waiting) (hf : ∀ p ∈ v.processes, p.pc.fits v.status)
    (ha : ∀ (i j : Nat) (p q : Process), v.processes[i]? = some p → v.processes[j]? = some q →
    p.pc.isActive → q.pc.isActive → i = j) (hu : v.resting → v.status.isUsable)
    (hg : v.status.isGone → v.idle ∧ v.quiescent)
    (hd : ∀ (i : Nat) (p : Process), v.processes[i]? = some p → p.disposes → p.pc ≠ .done →
    p.pc.undoes ∧ ∀ (j : Nat) (q : Process), v.processes[j]? = some q → j ≠ i → q.pc = .done) :
    v.Sound f := by
  refine ⟨⟨fun he => absurd he hw, ?_⟩, ?_, ?_, ?_, hf, ha, hu, hg, hd⟩
  · rintro ⟨k, c, hc, -, hp⟩
    exact absurd (done_of_idle hidle (mem_of_getElem? hc)) hp
  · intro k k' c c' hc _ _ _ hp _
    exact absurd (done_of_idle hidle (mem_of_getElem? hc)) hp
  · intro c hc _ hp
    exact absurd (done_of_idle hidle hc) hp
  · intro c hc _ _ hp
    exact absurd (done_of_idle hidle hc) hp

end

theorem Sound.status_ne_waiting (h : v.Sound f) (hidle : v.idle) : v.status ≠ .waiting := by
  intro hw
  obtain ⟨k, c, hc, -, hp⟩ := h.waiting.mp hw
  exact hp (done_of_idle hidle (mem_of_getElem? hc))

/-- An idle transaction holds locks of recorded resources only. -/
theorem Owns.mem_resources (h : v.Owns f r) (hidle : v.idle) : r ∈ v.resources.map f := by
  rcases h.2 with hm | ⟨c, hc, -, hl, -⟩
  · exact hm
  · exact absurd hl (not_locked_of_idle hidle hc)

/-- One process goes to another place, and the status with it. -/
theorem Sound.setProcess (h : v.Sound f) (hidle : v.idle) {p : Nat} {pr p' : Process}
    (hp : v.processes[p]? = some pr) (ho : v.ActiveAt p) (hd : p'.disposes = pr.disposes)
    {o : List Nat} (hm : pr.pc.mayMove p'.pc s) :
    Sound f { v with status := s, resources := o, processes := v.processes.set p p' } := by
  simp only [Pc.mayMove, Bool.and_eq_true, Bool.or_eq_true, Bool.not_eq_true', bne_iff_ne,
    beq_iff_eq] at hm
  obtain ⟨⟨⟨⟨⟨hdo, hun⟩, hf⟩, hu⟩, hw⟩, hg⟩ := hm
  refine Sound.of_idle hidle hw ?_ ?_ ?_ ?_ ?_
  · intro q hq
    obtain ⟨i, hi⟩ := getElem?_of_mem hq
    rcases getElem?_set_cases hi with ⟨-, rfl⟩ | ⟨he, hl⟩
    · exact hf
    · exact Pc.fits_of_inactive (ho i q hl he) _
  · intro i j q q' hq hq' hqa hqa'
    rcases getElem?_set_cases hq with ⟨rfl, -⟩ | ⟨hi, hl⟩
    · rcases getElem?_set_cases hq' with ⟨rfl, -⟩ | ⟨hj, ho'⟩
      · rfl
      · rw [ho j q' ho' hj] at hqa'
        cases hqa'
    · rw [ho i q hl hi] at hqa
      cases hqa
  · intro hr
    have hin := all_eq_true.mp hr p' (mem_set_self hp p')
    rcases hu with ha | hu
    · rw [ha] at hin
      cases hin
    · exact hu
  · intro hg'
    rw [hg] at hg'
    cases hg'
  · intro i q hq hqd hn
    rcases getElem?_set_cases hq with ⟨rfl, rfl⟩ | ⟨hi, hl⟩
    · rw [hd] at hqd
      obtain ⟨hpr, hdn⟩ := h.disposing i pr hp hqd hdo
      have hu' : q.pc.undoes := by
        rcases hun with (hno | hqd') | hy
        · rw [hpr] at hno
          cases hno
        · exact absurd hqd' hn
        · exact hy
      refine ⟨hu', ?_⟩
      intro j q' hq' hj
      rcases getElem?_set_cases hq' with ⟨hjp, -⟩ | ⟨hjp, ho'⟩
      · exact absurd hjp hj
      · exact hdn j q' ho' hj
    · -- Another process that disposes of the transaction would be active.
      have hin := ho i q hl hi
      rw [Pc.isActive_of_undoes (h.disposing i q hl hqd hn).1] at hin
      cases hin

theorem Sound.addProcess (h : v.Sound f) (hidle : v.idle)
    (hr : v.resting) {p : Process} (ha : p.pc.isActive)
    (hd : p.disposes → p.pc.undoes ∧ v.quiescent)
    (hf : p.pc.fits s) (hw : s ≠ .waiting) (hg : s.isGone = false) :
    Sound f { v with status := s, processes := v.processes ++ [p] } := by
  have hin : ∀ q ∈ v.processes, q.pc.isActive = false := by
    intro q hq
    simpa using all_eq_true.mp hr q hq
  refine Sound.of_idle hidle hw ?_ ?_ ?_ ?_ ?_
  · intro q hq
    rcases mem_concat_cases hq with hq | rfl
    · exact Pc.fits_of_inactive (hin q hq) _
    · exact hf
  · intro i j q q' hq hq' hqa hqa'
    rcases getElem?_concat_cases hq with ho | ⟨hi, -⟩
    · rw [hin q (mem_of_getElem? ho)] at hqa
      cases hqa
    · rcases getElem?_concat_cases hq' with ho' | ⟨hj, -⟩
      · rw [hin q' (mem_of_getElem? ho')] at hqa'
        cases hqa'
      · rw [hi, hj]
  · intro hr'
    have hn := all_eq_true.mp hr' p
      (mem_append_right _ (mem_singleton_self _))
    rw [ha] at hn
    cases hn
  · intro hg'
    rw [hg] at hg'
    cases hg'
  · intro i q hq hqd he
    rcases getElem?_concat_cases hq with ho | ⟨rfl, rfl⟩
    · have hqa := Pc.isActive_of_undoes (h.disposing i q ho hqd he).1
      rw [hin q (mem_of_getElem? ho)] at hqa
      cases hqa
    · obtain ⟨hu, hs⟩ := hd hqd
      refine ⟨hu, ?_⟩
      intro j q' hq' hj
      rcases getElem?_concat_cases hq' with ho' | ⟨hj', -⟩
      · simpa using all_eq_true.mp hs q' (mem_of_getElem? ho')
      · exact absurd hj' hj

theorem Sound.dispose (h : v.Sound f) (hidle : v.idle) (hq : v.quiescent) :
    Sound f { v with status := .destroyed, resources := [] } := by
  refine Sound.of_idle hidle (by simp) ?_ h.activeOnce (fun _ => rfl)
    (fun _ => ⟨hidle, hq⟩) h.disposing
  intro p hp
  have hd : p.pc = .done := by simpa using all_eq_true.mp hq p hp
  rw [hd]
  rfl

/-! ### Requests -/

/-- A shared or waiting transaction that is not closing is not being committed. -/
theorem Sound.resting_of_status (h : v.Sound f)
    (hs : v.status = .waiting ∨ v.status = .shared ∧ v.closing = false) : v.resting := by
  refine all_eq_true.mpr ?_
  intro p hp
  have hf := h.fits p hp
  rcases hs with hs | ⟨hs, hc⟩
  · rw [hs] at hf
    cases hpc : p.pc <;> simp [hpc, Pc.fits, Pc.isActive] at hf ⊢
  · have ho := any_eq_false.mp hc p hp
    rw [hs] at hf
    cases hpc : p.pc <;> simp [hpc, Pc.fits, Pc.isActive] at hf ho ⊢

theorem fits_of_resting (hr : v.resting) (s : Status) : ∀ p ∈ v.processes, p.pc.fits s := by
  intro p hp
  have hi := all_eq_true.mp hr p hp
  exact Pc.fits_of_inactive (by simpa using hi) _

namespace Sound

section
variable (h : v.Sound f)
include h

/-- A shared transaction has no request under way. -/
theorem idle_of_shared (hs : v.status = .shared) : v.idle := by
  refine all_eq_true.mpr ?_
  intro c hc
  rw [beq_iff_eq]
  by_contra hp
  cases hpr : c.purpose with
  | begin =>
    obtain ⟨k, hk⟩ := getElem?_of_mem hc
    have hw := h.waiting.mpr ⟨k, c, hk, hpr, hp⟩
    rw [hs] at hw
    cases hw
  | addResources e =>
    have he := (h.adding c hc e hpr hp).1
    rw [hs] at he
    cases he

theorem requestBegin (hs : v.status = .shared) (hl : v.closing = false) (hp : progress ≠ .done) :
    Sound f { v with
      status := .waiting
      cores := v.cores ++
        [{ purpose := .begin, resources := v.resources.map f, progress }] } := by
  have hr := h.resting_of_status (.inr ⟨hs, hl⟩)
  have hidle := h.idle_of_shared hs
  refine ⟨?_, ?_, ?_, ?_, fits_of_resting hr _, h.activeOnce, fun _ => rfl, ?_, h.disposing⟩
  · exact ⟨fun _ => ⟨v.cores.length, _, getElem?_concat_length, rfl, hp⟩, fun _ => rfl⟩
  · intro k k' c c' hc hc' _ _ hcp hcp'
    rcases getElem?_concat_cases hc with ho | ⟨hk, -⟩
    · exact absurd (done_of_idle hidle (mem_of_getElem? ho)) hcp
    · rcases getElem?_concat_cases hc' with ho' | ⟨hk', -⟩
      · exact absurd (done_of_idle hidle (mem_of_getElem? ho')) hcp'
      · rw [hk, hk']
  · intro c hc _ hcp
    rcases mem_append.mp hc with hc | hc
    · exact absurd (done_of_idle hidle hc) hcp
    · rw [mem_singleton.mp hc]
  · intro c hc o hpr hcp
    rcases mem_concat_cases hc with hc | rfl
    · exact absurd (done_of_idle hidle hc) hcp
    · cases hpr
  · intro hg
    cases hg

/-- The requests change, but for the `begin`s under way; a new one adds resources. -/
theorem setCores (ho : ∀ {i : Nat} {d : Core}, o[i]? = some d → d.progress ≠ .done →
      (∃ d' : Core, v.cores[i]? = some d' ∧ d'.purpose = d.purpose ∧ d'.resources = d.resources ∧
        d'.progress ≠ .done) ∨ v.status = .exclusive ∧ ∃ rs, d.purpose = .addResources rs ∧
        d.resources = rs.map f)
    (hbg : ∀ {i : Nat} {d : Core}, v.cores[i]? = some d → d.purpose = .begin → d.progress ≠ .done →
      ∃ d' : Core, o[i]? = some d' ∧ d'.purpose = .begin ∧ d'.progress ≠ .done) :
    Sound f { v with cores := o } := by
  have hb : ∀ {i : Nat} {d : Core}, o[i]? = some d → d.purpose = .begin →
      d.progress ≠ .done → ∃ d' : Core, v.cores[i]? = some d' ∧ d'.purpose = .begin ∧
        d'.resources = d.resources ∧ d'.progress ≠ .done := by
    intro i d hd hdb hdp
    rcases ho hd hdp with ⟨d', hd', hp, hrs⟩ | ⟨-, rs, hp, -⟩
    · exact ⟨d', hd', hp.trans hdb, hrs⟩
    · rw [hdb] at hp
      cases hp
  refine ⟨?_, ?_, ?_, ?_, h.fits, h.activeOnce, h.usable, ?_, h.disposing⟩
  · rw [h.waiting]
    constructor
    · rintro ⟨i, d, hd, hdb, hdp⟩
      exact ⟨i, hbg hd hdb hdp⟩
    · rintro ⟨i, d, hd, hdb, hdp⟩
      obtain ⟨d', hd', hdb', -, hdp'⟩ := hb hd hdb hdp
      exact ⟨i, d', hd', hdb', hdp'⟩
  · intro i j d e hd he hdb heb hdp hep
    obtain ⟨d', hd', hdb', -, hdp'⟩ := hb hd hdb hdp
    obtain ⟨e', he', heb', -, hep'⟩ := hb he heb hep
    exact h.beginOnce i j d' e' hd' he' hdb' heb' hdp' hep'
  · intro d hd hdb hdp
    obtain ⟨i, hi⟩ := getElem?_of_mem hd
    obtain ⟨d', hd', hdb', hr, hdp'⟩ := hb hi hdb hdp
    rw [← hr]
    exact h.beginning d' (mem_of_getElem? hd') hdb' hdp'
  · intro d hd rs hp hdp
    obtain ⟨i, hi⟩ := getElem?_of_mem hd
    rcases ho hi hdp with ⟨d', hd', hp', hr, hdp'⟩ | ⟨hs, _, ha, hm⟩
    · rw [← hr]
      exact h.adding d' (mem_of_getElem? hd') rs (hp'.trans hp) hdp'
    · rw [ha] at hp
      cases hp
      exact ⟨hs, hm⟩
  · intro hg
    obtain ⟨hidle, hq⟩ := h.gone hg
    refine ⟨all_eq_true.mpr ?_, hq⟩
    intro d hd
    obtain ⟨i, hi⟩ := getElem?_of_mem hd
    rw [beq_iff_eq]
    by_contra hdp
    rcases ho hi hdp with ⟨d', hd', -, -, hdp'⟩ | ⟨hs, -⟩
    · exact hdp' (done_of_idle hidle (mem_of_getElem? hd'))
    · rw [hs] at hg
      cases hg

theorem requestAdd (hs : v.status = .exclusive) (o : List Nat) :
    Sound f { v with
      cores := v.cores ++
        [{ purpose := .addResources o, resources := o.map f,
           progress }] } := by
  refine h.setCores ?_ ?_
  · intro i d hd hp
    rcases getElem?_concat_cases hd with ho | ⟨-, rfl⟩
    · exact .inl ⟨d, ho, rfl, rfl, hp⟩
    · exact .inr ⟨hs, o, rfl, rfl⟩
  · intro i d hd hb hp
    exact ⟨d, getElem?_concat_left hd, hb, hp⟩

section
variable (hk : v.cores[k]? = some c)
include hk

/-- A request makes progress and does not end. -/
theorem setProgress (hc : c.progress ≠ .done)
    (hp : progress ≠ .done) : Sound f { v with cores := v.cores.set k { c with progress } } := by
  refine h.setCores ?_ ?_
  · intro i d hd hdp
    rcases getElem?_set_cases hd with ⟨rfl, rfl⟩ | ⟨-, hd⟩
    · exact .inl ⟨c, hk, rfl, rfl, hc⟩
    · exact .inl ⟨d, hd, rfl, rfl, hdp⟩
  · intro i d hd hb hdp
    by_cases hi : i = k
    · subst hi
      obtain rfl := Option.mem_unique hk hd
      exact ⟨{ c with progress }, List.getElem?_set_self (List.getElem?_eq_some_iff.mp hk).1, hb,
        hp⟩
    · exact ⟨d, (List.getElem?_set_ne (Ne.symm hi)).trans hd, hb, hdp⟩

theorem finishBegin (hp : c.purpose = .begin) (hc : c.progress ≠ .done)
    (hs : s = .exclusive ∨ s = .shared) : Sound f (v.endRequest k c s) := by
  have hw := h.waiting.mpr ⟨k, c, hk, hp, hc⟩
  have hr := h.resting_of_status (.inl hw)
  -- The others have ended: there is one `begin`, and the additions need another status.
  have hidle : (v.endRequest k c s).idle := by
    refine all_eq_true.mpr ?_
    intro d hm
    obtain ⟨i, hd⟩ := getElem?_of_mem hm
    rcases getElem?_set_cases hd with ⟨-, rfl⟩ | ⟨hi, hd⟩
    · rfl
    · rw [beq_iff_eq]
      by_contra hdp
      cases hb : d.purpose with
      | begin => exact hi (h.beginOnce i k d c hd hk hb hp hdp hc)
      | addResources e =>
        have he := (h.adding d (mem_of_getElem? hd) e hb hdp).1
        rw [hw] at he
        cases he
  refine of_idle hidle ?_ (fits_of_resting hr _) h.activeOnce ?_ ?_ h.disposing <;>
    rcases hs with rfl | rfl
  all_goals simp [endRequest, Status.isUsable, Status.isGone]

theorem finishAdd {rs : List Nat}
    (hp : c.purpose = .addResources rs) : Sound f (v.endRequest k c v.status) := by
  refine h.setCores ?_ ?_
  · intro i d hd hdp
    rcases getElem?_set_cases hd with ⟨-, rfl⟩ | ⟨-, hd⟩
    · exact absurd rfl hdp
    · exact .inl ⟨d, hd, rfl, rfl, hdp⟩
  · intro i d hd hb hdp
    have hi : k ≠ i := by
      rintro rfl
      rw [← Option.mem_unique hk hd, hp] at hb
      cases hb
    exact ⟨d, (List.getElem?_set_ne hi).trans hd, hb, hdp⟩

end

/-- Resources are recorded, outside of a `begin`. -/
theorem putResources (hs : v.status ≠ .waiting)
    (o : List Nat) : Sound f { v with resources := o } := by
  refine ⟨h.waiting, h.beginOnce, ?_, h.adding, h.fits, h.activeOnce, h.usable, h.gone, h.disposing⟩
  intro c hc hpr hp
  obtain ⟨k, hk⟩ := getElem?_of_mem hc
  exact absurd (h.waiting.mpr ⟨k, c, hk, hpr, hp⟩) hs

theorem beginSync (hs : v.status = .shared)
    (hc : v.closing = false) : Sound f { v with status := .exclusive } := by
  have hr := h.resting_of_status (.inr ⟨hs, hc⟩)
  exact of_idle (h.idle_of_shared hs) (by simp) (fits_of_resting hr _)
    h.activeOnce (fun _ => rfl) (fun hg => (by cases hg)) h.disposing

end

end Sound

/-! ### Locks -/

/-- A transaction that is back to shared, but for a reset that is still to come, holds nothing. -/
theorem not_holds_of_shared (hs : v.status = .shared)
    (hr : ∀ p ∈ v.processes, ∀ m, p.pc ≠ .resetting m) : ¬ v.Holds := by
  simp only [Holds, hs]
  rintro (h | ⟨-, p, hp, m, hc⟩ | ⟨h, -⟩)
  · cases h
  · exact hr p hp m hc
  · cases h

theorem not_holds_of_status
    (hs : v.status = .concluding ∨ v.status = .readOnly ∨ v.status = .destroyed) : ¬ v.Holds := by
  rcases hs with hs | hs | hs <;> simp [Holds, hs, Status.isLocking]

theorem not_resetting_of_resting (hr : v.resting) :
    ∀ p ∈ v.processes, ∀ committed, p.pc ≠ .resetting committed := by
  intro p hp committed hc
  have hi := all_eq_true.mp hr p hp
  rw [hc] at hi
  cases hi

theorem not_resetting_of_closing (hc : v.closing = false) :
    ∀ p ∈ v.processes, ∀ committed, p.pc ≠ .resetting committed := by
  intro p hp committed hpc
  have ho := any_eq_false.mp hc p hp
  rw [hpc] at ho
  exact ho rfl

theorem Owns.mono {v' : View} (h : v.Owns f r) (hh : v.Holds → v'.Holds)
    (hs : r ∈ v.resources.map f → r ∈ v'.resources.map f)
    (hcr : ∀ c ∈ v.cores, (∃ rs, c.purpose = .addResources rs) → c.progress = .locked →
    r ∈ c.resources → c ∈ v'.cores ∨ r ∈ v'.resources.map f) : v'.Owns f r := by
  refine ⟨hh h.1, ?_⟩
  rcases h.2 with hm | ⟨c, hc, ha, hl, hr⟩
  · exact .inl (hs hm)
  · rcases hcr c hc ha hl hr with hc' | hm
    · exact .inr ⟨c, hc', ha, hl, hr⟩
    · exact .inl hm

theorem mem_set_of_ne {d' : Core} (hk : o[k]? = some d)
    (hc : c ∈ o) (hn : c ≠ d) : c ∈ o.set k d' := by
  obtain ⟨i, hi⟩ := getElem?_of_mem hc
  have hik : k ≠ i := by
    rintro rfl
    exact hn (Option.mem_unique hi hk)
  exact mem_of_getElem? ((List.getElem?_set_ne hik).trans hi)

theorem eq_or_mem_of_mem_set (hc : c ∈ o.set k d) : c = d ∨ c ∈ o := by
  rcases mem_or_eq_of_mem_set hc with ho | he
  · exact .inr ho
  · exact .inl he

theorem Sound.owns_lock (h : v.Sound f) (hk : v.cores[k]? = some c) (hc : c.progress = .pending)
    (hr : r ∈ c.resources ∨ v.Owns f r) :
    Owns f { v with cores := v.cores.set k { c with progress := .locked } } r := by
  have hp : c.progress ≠ .done := by
    rw [hc]
    decide
  have hs : ∀ d ∈ v.cores, d.progress = .locked →
      d ∈ v.cores.set k { c with progress := .locked } := by
    intro d hd hl
    refine mem_set_of_ne hk hd ?_
    rintro rfl
    rw [hc] at hl
    cases hl
  rcases hr with hr | hr
  · cases hpr : c.purpose with
    | begin =>
      have hw := h.waiting.mpr ⟨k, c, hk, hpr, hp⟩
      have hrs := h.beginning c (mem_of_getElem? hk) hpr hp
      refine ⟨?_, .inl (hrs ▸ hr)⟩
      exact .inr (.inr ⟨hw, _, mem_set_self hk _, rfl, rfl⟩)
    | addResources o =>
      have he := (h.adding c (mem_of_getElem? hk) o hpr hp).1
      refine ⟨.inl ?_, .inr ⟨_, mem_set_self hk _, ⟨o, rfl⟩, rfl, hr⟩⟩
      rw [he]
      rfl
  · refine hr.mono ?_ id ?_
    · intro hh
      rcases hh with hlc | hsh | ⟨hw, d, hd, hb, hdl⟩
      · exact .inl hlc
      · exact .inr (.inl hsh)
      · exact .inr (.inr ⟨hw, d, hs d hd hdl, hb, hdl⟩)
    · intro d hd _ hl _
      exact .inl (hs d hd hl)

/-- A transaction whose `begin` has no lock yet holds nothing. -/
theorem Sound.not_holds_of_begin (h : v.Sound f) (hk : v.cores[k]? = some c)
    (hp : c.purpose = .begin) (hc : c.progress = .pending) : ¬ v.Holds := by
  have hn : c.progress ≠ .done := by
    rw [hc]
    decide
  have hw := h.waiting.mpr ⟨k, c, hk, hp, hn⟩
  simp only [Holds, hw]
  rintro (hl | ⟨hs, -⟩ | ⟨-, d, hd, hb, hdl⟩)
  · cases hl
  · cases hs
  · obtain ⟨i, hi⟩ := getElem?_of_mem hd
    have hik := h.beginOnce k i c d hk hi hp hb hn (by rw [hdl]; decide)
    subst hik
    rw [Option.mem_unique hk hi, hdl] at hc
    cases hc

end View

end MatterJs.Transaction
