import MatterJs.Util.Semaphore
import MatterJs.Foundation.IndexedList
import Mathlib.Data.List.Pairwise

/-!
# Slot accounting

The running count is the number of slots granted and not released, whatever happens. That each of
them is with a caller holds as long as no slot is granted to a caller whose abort has decided the
race: the continuation that takes such a caller from the queue comes later.
-/
namespace MatterJs.Util

open TransitionSystem IndexedList List Request

namespace Semaphore

variable {s t : Semaphore} {rq next n : Nat} {rest : List Nat}

/-- The slots, the queue and the calls agree. -/
structure Accounted (s : Semaphore) : Prop where
  running : s.runningCount = s.requests.countP holds
  bounded : s.runningCount ≤ s.concurrency
  queued : ∀ i ∈ s.queue, ∃ r : Request, s.requests[i]? = some r ∧
    (r.phase = .waiting ∨ r.phase = .aborting) ∧ r.slot = none
  waiting : ∀ (i : Nat) (r : Request), s.requests[i]? = some r → r.phase = .waiting → i ∈ s.queue
  slotted : ∀ (i : Nat) (r : Request), s.requests[i]? = some r → r.slot.isSome →
    r.phase = .granted ∨ r.phase = .returned
  sorted : s.queue.Pairwise (· < ·)
  servedSorted : s.served.Pairwise (· < ·)
  servedFirst : ∀ i ∈ s.served, ∀ j ∈ s.queue, i < j
  servedLt : ∀ i ∈ s.served, i < s.requests.length
  servedAll : ∀ (i : Nat) (r : Request), s.requests[i]? = some r →
    r.phase = .granted ∨ r.phase = .returned →
    i ∈ s.served

/-- Without a delay, nobody waits while there is capacity. -/
def Idle (s : Semaphore) : Prop :=
  s.delay = 0 → s.timerRunning = false ∧ (s.queue = [] ∨ (s.concurrency : Int) ≤ s.runningCount)

theorem accounted_new (concurrency delay : Nat) (timeout : Option Nat) :
    Accounted { concurrency, delay, timeout } where
  running := rfl
  bounded := Int.natCast_nonneg _
  queued := by simp
  waiting := by simp
  slotted := by simp
  sorted := .nil
  servedSorted := .nil
  servedFirst := by simp
  servedLt := by simp
  servedAll := by simp

/-! ### Grants -/

/-- A call changes, and may leave the queue. -/
theorem Accounted.setRequest (h : s.Accounted) {r r' : Request} {u e : List Nat}
    {c : Int} {tr : Bool} (hr : s.requests[rq]? = some r)
    (hn : c + (if r.holds then 1 else 0) = s.runningCount + if r'.holds then 1 else 0)
    (hb : c ≤ s.concurrency)
    (hu : u.Sublist s.queue) (hkp : ∀ i ∈ s.queue, i ≠ rq → i ∈ u)
    (hd : rq ∈ u → (r'.phase = .waiting ∨ r'.phase = .aborting) ∧ r'.slot = none)
    (hw : r'.phase = .waiting → rq ∈ u)
    (hs : r'.slot.isSome → r'.phase = .granted ∨ r'.phase = .returned)
    (hsr : e.Pairwise (· < ·)) (hf : ∀ i ∈ e, ∀ j ∈ u, i < j)
    (ht : ∀ i ∈ e, i < s.requests.length) (hse : s.served ⊆ e)
    (hl : r'.phase = .granted ∨ r'.phase = .returned → rq ∈ e) :
    Accounted { s with
      queue := u, served := e, runningCount := c, timerRunning := tr,
      requests := s.requests.set rq r' } := by
  refine ⟨?_, hb, ?_, ?_, ?_, h.sorted.sublist hu, hsr, hf, ?_, ?_⟩
  · have hc := countP_set (p := holds) r' hr
    have hbf := h.running
    simp only
    split_ifs at hc hn <;> omega
  · intro i hi
    by_cases he : i = rq
    · subst he
      exact ⟨r', List.getElem?_set_self (List.getElem?_eq_some_iff.mp hr).1, hd hi⟩
    · obtain ⟨q, hq, hq'⟩ := h.queued i (hu.subset hi)
      exact ⟨q, (List.getElem?_set_ne (Ne.symm he)).trans hq, hq'⟩
  · intro i q hq hqw
    rcases getElem?_set_cases hq with ⟨rfl, rfl⟩ | ⟨hi, hq⟩
    · exact hw hqw
    · exact hkp i (h.waiting i q hq hqw) hi
  · intro i q hq hm
    rcases getElem?_set_cases hq with ⟨rfl, rfl⟩ | ⟨-, hq⟩
    · exact hs hm
    · exact h.slotted i q hq hm
  · intro i hi
    rw [length_set]
    exact ht i hi
  · intro i q hq hp
    rcases getElem?_set_cases hq with ⟨rfl, rfl⟩ | ⟨-, hq⟩
    · exact hl hp
    · exact hse (h.servedAll i q hq hp)

/-- A slot is granted to the first in the queue, whose race is undecided. -/
theorem Accounted.grant (h : s.Accounted) (hq : s.queue = n :: rest)
    (hrm : s.runningCount < s.concurrency)
    (hn : ∀ r : Request, s.requests[n]? = some r → r.phase ≠ .aborting) :
    Accounted (grantSlot { s with queue := rest } n) := by
  have hh : n ∈ s.queue := by simp [hq]
  have hrs : ∀ i ∈ rest, i ∈ s.queue := by simp +contextual [hq]
  obtain ⟨r, hr, hp, hl⟩ := h.queued n hh
  have hw : r.phase = .waiting := hp.resolve_right (hn r hr)
  have hg : r.grant = { phase := .granted, slot := some {} } := by
    simp [Request.grant, hw]
  have hs := h.sorted
  rw [hq, pairwise_cons] at hs
  simp only [grantSlot, modifyRequest, hr, hg]
  refine h.setRequest hr ?_ (by omega) ?_ ?_ ?_ (fun heq => by cases heq) (fun _ => .inl rfl) ?_ ?_
    ?_ (subset_append_left _ _) (fun _ => by simp)
  · simp [holds, hl]
  · rw [hq]
    exact sublist_cons_self _ _
  · intro i hi he
    rw [hq] at hi
    exact (mem_cons.mp hi).resolve_left he
  · intro hm
    exact absurd (hs.1 n hm) (Nat.lt_irrefl _)
  · refine pairwise_append.mpr ⟨h.servedSorted, pairwise_singleton .., ?_⟩
    intro i hi j hj
    rw [mem_singleton.mp hj]
    exact h.servedFirst i hi n hh
  · intro i hi j hj
    rcases mem_concat_cases hi with hi | rfl
    · exact h.servedFirst i hi j (hrs j hj)
    · exact hs.1 j hj
  · intro i hi
    rcases mem_concat_cases hi with hi | rfl
    · exact h.servedLt i hi
    · exact (List.getElem?_eq_some_iff.mp hr).1

/-- The timer, and that the semaphore is closed, are of no concern for the accounts. -/
theorem Accounted.withFlags (h : s.Accounted) (r closed : Bool) :
    Accounted { s with timerRunning := r, closed } :=
  ⟨h.running, h.bounded, h.queued, h.waiting, h.slotted, h.sorted, h.servedSorted, h.servedFirst,
    h.servedLt, h.servedAll⟩

section

variable (s) (rq)

@[simp] theorem delay_grantSlot : (s.grantSlot rq).delay = s.delay := by
  unfold grantSlot modifyRequest
  cases s.requests[rq]? <;> rfl

@[simp] theorem concurrency_grantSlot : (s.grantSlot rq).concurrency = s.concurrency := by
  unfold grantSlot modifyRequest
  cases s.requests[rq]? <;> rfl

@[simp] theorem queue_grantSlot : (s.grantSlot rq).queue = s.queue := by
  unfold grantSlot modifyRequest
  cases s.requests[rq]? <;> rfl

/-- The first in the queue has not been aborted. -/
def headWaits : Bool :=
  s.queue.head?.all (fun next => s.requests[next]?.all (·.phase != .aborting))

end

theorem headWaits_cons (h : s.headWaits) (hq : s.queue = n :: rest) (r : Request)
    (hr : s.requests[n]? = some r) : r.phase ≠ .aborting := by
  simpa [headWaits, hq, hr] using h

/-- One slot at most is granted: without a delay there is capacity for one, with a delay the
timer runs after it. -/
theorem Accounted.processNextInQueue (h : s.Accounted) (ht : s.timerRunning = false)
    (ho : s.delay = 0 → s.queue = [] ∨ (s.concurrency : Int) ≤ s.runningCount + 1)
    (hh : s.headWaits) : s.processNextInQueue.Accounted ∧ s.processNextInQueue.Idle := by
  unfold Semaphore.processNextInQueue
  cases hq : s.queue with
  | nil =>
    have he : { s with queue := [] } = s := by rw [← hq]
    rw [processQueue, he]
    exact ⟨h, fun _ => ⟨ht, .inl hq⟩⟩
  | cons n rest =>
    rw [processQueue]
    split_ifs with hf
    · have he : { s with queue := n :: rest } = s := by rw [← hq]
      rw [he]
      exact ⟨h, fun _ => ⟨ht, .inr hf⟩⟩
    · have hm : s.runningCount < s.concurrency := Int.not_le.mp hf
      have hg := h.grant hq hm (headWaits_cons hh hq)
      have hr : (grantSlot { s with queue := rest } n).runningCount = s.runningCount + 1 := rfl
      have ht' : (grantSlot { s with queue := rest } n).timerRunning = decide (0 < s.delay) := by
        simp [grantSlot, ht]
      simp only [concurrency_grantSlot, hr, ht']
      by_cases hd : s.delay = 0
      · have hl := (ho hd).resolve_left (by simp [hq])
        rw [if_pos (.inr (.inr hl))]
        refine ⟨hg, fun _ => ⟨?_, .inr ?_⟩⟩
        · rw [ht', hd]
          rfl
        · rw [concurrency_grantSlot, hr]
          exact hl
      · rw [if_pos (.inl (decide_eq_true (Nat.pos_of_ne_zero hd)))]
        refine ⟨hg, ?_⟩
        intro hz
        rw [delay_grantSlot] at hz
        exact absurd hz hd

theorem Accounted.scheduleProcessing (h : s.Accounted) (ho : s.delay = 0 → s.timerRunning = false ∧
      (s.queue = [] ∨ (s.concurrency : Int) ≤ s.runningCount + 1)) (hh : s.headWaits) :
    s.scheduleProcessing.Accounted ∧ s.scheduleProcessing.Idle := by
  unfold Semaphore.scheduleProcessing
  split_ifs with hs hd
  · refine ⟨h, fun hd => ⟨(ho hd).1, ?_⟩⟩
    rcases hs with ht | hq | hf
    · rw [(ho hd).1] at ht
      cases ht
    · exact .inl hq
    · exact .inr hf
  · exact h.processNextInQueue (ho hd).1 (fun _ => (ho hd).2) hh
  · exact ⟨h.withFlags true _, fun hz => absurd hz hd⟩

/-! ### Calls -/

variable {phase : Phase}

/-- A call is made, and waits or is rejected at once. -/
theorem Accounted.addRequest (h : s.Accounted) {a : List Nat}
    (ha : phase = .rejected ∧ a = [] ∨ phase = .waiting ∧ a = [s.requests.length]) :
    Accounted { s with requests := s.requests ++ [{ phase }], queue := s.queue ++ a } := by
  have hq : ∀ i ∈ s.queue, i < s.requests.length := by
    intro i hi
    obtain ⟨r, hr, -⟩ := h.queued i hi
    exact (List.getElem?_eq_some_iff.mp hr).1
  have hn : ∀ i ∈ a, i = s.requests.length ∧ phase = .waiting := by
    rcases ha with ⟨-, rfl⟩ | ⟨rfl, rfl⟩ <;> simp
  refine ⟨?_, h.bounded, ?_, ?_, ?_, ?_, h.servedSorted, ?_, ?_, ?_⟩
  · simpa [holds] using h.running
  · intro i hi
    rcases mem_append.mp hi with hi | hi
    · obtain ⟨r, hr, hr'⟩ := h.queued i hi
      exact ⟨r, getElem?_concat_left hr, hr'⟩
    · obtain ⟨rfl, rfl⟩ := hn i hi
      exact ⟨{ phase := .waiting }, List.getElem?_concat_length, .inl rfl, rfl⟩
  · intro i r hr hw
    rcases getElem?_concat_cases hr with hr | ⟨rfl, rfl⟩
    · exact mem_append_left _ (h.waiting i r hr hw)
    · rcases ha with ⟨rfl, -⟩ | ⟨-, rfl⟩
      · cases hw
      · exact mem_append_right _ (mem_singleton_self _)
  · intro i r hr hs
    rcases getElem?_concat_cases hr with hr | ⟨-, rfl⟩
    · exact h.slotted i r hr hs
    · cases hs
  · refine pairwise_append.mpr ⟨h.sorted, ?_, ?_⟩
    · rcases ha with ⟨-, rfl⟩ | ⟨-, rfl⟩ <;> simp
    · intro i hi j hj
      rw [(hn j hj).1]
      exact hq i hi
  · intro i hi j hj
    rcases mem_append.mp hj with hj | hj
    · exact h.servedFirst i hi j hj
    · rw [(hn j hj).1]
      exact h.servedLt i hi
  · intro i hi
    have hl := h.servedLt i hi
    simp only [length_append]
    omega
  · intro i r hr hp
    rcases getElem?_concat_cases hr with hr | ⟨-, rfl⟩
    · exact h.servedAll i r hr hp
    · rcases ha with ⟨rfl, -⟩ | ⟨rfl, -⟩ <;> rcases hp with hp | hp <;> cases hp

theorem Accounted.obtainSlot (h : s.Accounted) (hl : s.Idle) (b : Bool) :
    (s.obtainSlot b).Accounted ∧ (s.obtainSlot b).Idle := by
  unfold Semaphore.obtainSlot
  split_ifs with hre
  · have hf := h.addRequest (.inl ⟨rfl, rfl⟩)
    rw [append_nil] at hf
    exact ⟨hf, hl⟩
  · have he := h.addRequest (.inr ⟨rfl, rfl⟩)
    simp only
    split_ifs with hi
    · simp only [canGrantImmediately, Bool.and_eq_true, decide_eq_true_eq, List.isEmpty_iff]
        at hi
      obtain ⟨⟨hrm, hm⟩, -⟩ := hi
      have hg := he.grant
        (show s.queue ++ [s.requests.length] = s.requests.length :: [] by simp [hm]) hrm (by
          intro r hr
          rw [List.getElem?_concat_length] at hr
          rw [← Option.some.inj hr]
          simp)
      have hq : ({ s with
            requests := s.requests ++ [{ phase := .waiting }]
            queue := [] } : Semaphore) =
          { s with requests := s.requests ++ [{ phase := .waiting }] } := by
        rw [← hm]
      rw [hq] at hg
      refine ⟨hg, ?_⟩
      intro hd
      rw [delay_grantSlot] at hd
      obtain ⟨ht, -⟩ := hl hd
      refine ⟨?_, .inl ?_⟩
      · simp only at hd
        simp [grantSlot, ht, hd]
      · rw [queue_grantSlot]
        exact hm
    · -- Without a delay there is no capacity, so nothing is processed.
      unfold Semaphore.scheduleProcessing
      by_cases hd : s.delay = 0
      · obtain ⟨ht, hc⟩ := hl hd
        have hfl : (s.concurrency : Int) ≤ s.runningCount := by
          refine hc.elim (fun hm => ?_) id
          by_contra hrm
          refine hi ?_
          simp [canGrantImmediately, hm, hd, Int.not_le.mp hrm]
        rw [if_pos (.inr (.inr hfl))]
        exact ⟨he, fun _ => ⟨ht, .inr hfl⟩⟩
      · split_ifs
        · exact ⟨he, fun hz => absurd hz hd⟩
        · exact ⟨he.withFlags true _, fun hz => absurd hz hd⟩

/-! ### Aborts and continuations -/

section
variable (h : s.Accounted)
include h

section
variable {r : Request} (hr : s.requests[rq]? = some r)
include hr

/-- The phase of a call changes, and the call may leave the queue. -/
theorem Accounted.setPhase {u : List Nat} (hu : u.Sublist s.queue)
    (hkp : ∀ i ∈ s.queue, i ≠ rq → i ∈ u) (hw : phase ≠ .waiting) (hqu : rq ∈ u → phase = .aborting)
    (hl : r.slot.isSome → phase = .granted ∨ phase = .returned)
    (hs : phase = .granted ∨ phase = .returned → r.phase = .granted ∨ r.phase = .returned) :
    Accounted { s with queue := u, requests := s.requests.set rq { r with phase } } := by
  refine h.setRequest hr rfl h.bounded hu hkp ?_ (fun he => absurd he hw) hl
    h.servedSorted (fun i hi j hj => h.servedFirst i hi j (hu.subset hj)) h.servedLt
    (List.Subset.refl _) (fun hp => h.servedAll rq r hr (hs hp))
  intro hm
  obtain ⟨q, hq, -, hn⟩ := h.queued rq (hu.subset hm)
  rw [← Option.mem_unique hr hq] at hn
  exact ⟨.inr (hqu hm), hn⟩

/-- A call in the queue has no slot yet. -/
theorem Accounted.slot_of_waiting (hp : r.phase = .waiting) : r.slot = none := by
  obtain ⟨q, hq, -, hn⟩ := h.queued rq (h.waiting rq r hr hp)
  rw [Option.mem_unique hr hq]
  exact hn

end

theorem Accounted.abort (rq : Nat) : (s.modifyRequest rq Request.abort).Accounted := by
  unfold modifyRequest
  cases hr : s.requests[rq]? with
  | none => exact h
  | some r =>
    simp only [Request.abort]
    split_ifs with hp
    · refine h.setPhase hr (List.Sublist.refl _) (fun _ hi _ => hi) (by simp) (fun _ => rfl) ?_ ?_
      · rw [h.slot_of_waiting hr hp]
        intro hs
        cases hs
      · rintro (he | he) <;> cases he
    · obtain ⟨hl, he⟩ := List.getElem?_eq_some_iff.mp hr
      rw [← he, List.set_getElem_self]
      exact h

theorem Accounted.settle (rq : Nat) : (s.settle rq).Accounted := by
  unfold Semaphore.settle
  split
  · rename_i slot hr
    refine h.setPhase hr (List.Sublist.refl _) (fun _ hi _ => hi) (by simp) ?_ (fun _ => .inr rfl)
      (fun _ => .inl rfl)
    intro hm
    obtain ⟨q, hq, hp, -⟩ := h.queued rq hm
    rw [← Option.mem_unique hr hq] at hp
    rcases hp with hp | hp <;> cases hp
  · rename_i slot hr
    have hd : s.queue.Nodup := h.sorted.imp Nat.ne_of_lt
    refine h.setPhase hr erase_sublist ?_ (by simp) ?_ ?_ ?_
    · intro i hi hn
      exact (mem_erase_of_ne hn).mpr hi
    · intro hm
      exact absurd hm hd.not_mem_erase
    · intro hs
      rcases h.slotted rq _ hr hs with hp | hp <;> cases hp
    · rintro (he | he) <;> cases he
  · exact h

end

theorem Idle.settle (hl : s.Idle) (rq : Nat) : (s.settle rq).Idle := by
  unfold Semaphore.settle
  split
  · exact hl
  · intro hd
    obtain ⟨ht, hc⟩ := hl hd
    refine ⟨ht, hc.imp_left ?_⟩
    intro he
    simp [he]
  · exact hl

/-- The signal of the semaphore is aborted and the queue is emptied. -/
theorem Accounted.abortAll (h : s.Accounted) : Accounted { s.abortAll with queue := [] } := by
  have hg : ∀ (i : Nat) (r : Request), (s.requests.map Request.abort)[i]? = some r →
      ∃ q, s.requests[i]? = some q ∧ q.abort = r := by
    intro i r hr
    rw [getElem?_map] at hr
    exact Option.map_eq_some_iff.mp hr
  have hl : ∀ r : Request, r.abort.slot = r.slot := by
    intro r
    unfold Request.abort
    split_ifs <;> rfl
  have hp : ∀ (r : Request), r.abort.phase = .granted ∨ r.abort.phase = .returned →
      r.phase = .granted ∨ r.phase = .returned := by
    intro r
    unfold Request.abort
    split_ifs
    · rintro (he | he) <;> cases he
    · exact id
  refine ⟨?_, h.bounded, by simp, ?_, ?_, .nil, h.servedSorted, by simp, ?_, ?_⟩
  · have hh : holds ∘ Request.abort = holds := by
      funext r
      simp [holds, hl]
    simp only [Semaphore.abortAll, countP_map, hh]
    exact h.running
  · intro i r hr hw
    obtain ⟨q, -, rfl⟩ := hg i r hr
    unfold Request.abort at hw
    split_ifs at hw with hq
    exact absurd hw hq
  · intro i r hr hs
    obtain ⟨q, hq, rfl⟩ := hg i r hr
    rw [hl] at hs
    have hq' := h.slotted i q hq hs
    unfold Request.abort
    split_ifs with hw
    · rw [hw] at hq'
      rcases hq' with he | he <;> cases he
    · exact hq'
  · intro i hi
    simp only [Semaphore.abortAll, length_map]
    exact h.servedLt i hi
  · intro i r hr hr'
    obtain ⟨q, hq, rfl⟩ := hg i r hr
    exact h.servedAll i q hq (hp q hr')

theorem Accounted.clear (h : s.Accounted) : s.clear.Accounted := by
  unfold Semaphore.clear
  split_ifs with he
  · have hq : ({ s with queue := [] } : Semaphore) = s := by rw [← he]
    rw [hq]
    exact h
  · exact h.abortAll

theorem Idle.clear (hl : s.Idle) : s.clear.Idle := by
  intro hd
  unfold Semaphore.clear at hd ⊢
  split_ifs at hd ⊢
  · exact ⟨(hl hd).1, .inl rfl⟩
  · exact ⟨(hl hd).1, .inl rfl⟩

theorem clear_abortAll (s : Semaphore) : s.abortAll.clear = { s.abortAll with queue := [] } := by
  have ha : Request.abort ∘ Request.abort = Request.abort := by
    funext r
    simp only [Function.comp_apply, Request.abort]
    split_ifs with hw hg
    · cases hg
    · rfl
    · rfl
  have ht : s.abortAll.abortAll = s.abortAll := by
    simp [Semaphore.abortAll, ha]
  unfold Semaphore.clear
  split_ifs
  · rfl
  · rw [ht]

theorem Accounted.close (h : s.Accounted) : s.close.Accounted := by
  unfold Semaphore.close
  rw [clear_abortAll]
  exact h.abortAll.withFlags false true

theorem idle_close (s : Semaphore) : s.close.Idle := by
  intro _
  exact ⟨rfl, .inl rfl⟩

/-! ### Releases -/

theorem Accounted.giveBack (h : s.Accounted)
    (hr : s.requests[rq]? = some { phase, slot := some { released := false } }) :
    Accounted { s with
      requests := s.requests.set rq { phase, slot := some { released := true } }
      runningCount := s.runningCount - 1 } := by
  have hb := h.bounded
  have hp := h.slotted rq _ hr rfl
  refine h.setRequest hr ?_ (by omega) (List.Sublist.refl _) (fun _ hi _ => hi) ?_
    (fun he => h.waiting rq _ hr he) (fun _ => hp) h.servedSorted h.servedFirst
    h.servedLt (List.Subset.refl _) (fun _ => h.servedAll rq _ hr hp)
  · simp [holds]
  · intro hm
    obtain ⟨q, hq, -, hn⟩ := h.queued rq hm
    rw [← Option.mem_unique hr hq] at hn
    cases hn

theorem Accounted.release (h : s.Accounted) (hl : s.Idle) (hh : s.headWaits)
    (rq : Nat) : (s.release rq).Accounted ∧ (s.release rq).Idle := by
  unfold Semaphore.release
  split
  · rename_i phase hr
    refine (h.giveBack hr).scheduleProcessing ?_ ?_
    · intro hd
      obtain ⟨ht, hc⟩ := hl hd
      refine ⟨ht, hc.imp_right ?_⟩
      simp only
      omega
    · unfold headWaits at hh ⊢
      cases hq : s.queue.head? with
      | none => rfl
      | some n =>
        rw [hq, Option.all_some] at hh
        simp only [Option.all_some, getElem?_set]
        split_ifs with he
        · subst he
          rw [hr] at hh
          exact hh
        · rfl
        · exact hh
  · exact ⟨h, hl⟩

/-! ### Whole histories -/

/-- The condition on an event: when it may grant a slot from the queue, the first in the queue has
not been aborted. -/
def undisputed (s : Semaphore) : SemaphoreEvent → Bool
  | .release _ | .slotTimeout _ | .delayTimer => s.headWaits
  | _ => true

theorem accounted_step (h : s.Accounted) (hl : s.Idle) {e : SemaphoreEvent}
    (hu : s.undisputed e) (hs : s.step e = some t) : t.Accounted ∧ t.Idle := by
  cases e with
  | obtainSlot a =>
    cases hs
    exact h.obtainSlot hl a
  | abort r =>
    cases hs
    refine ⟨h.abort r, ?_⟩
    unfold modifyRequest
    cases s.requests[r]? <;> exact hl
  | settle r =>
    cases hs
    exact ⟨h.settle r, hl.settle r⟩
  | release r =>
    simp only [step] at hs
    split at hs
    · cases hs
      exact h.release hl hu r
    · cases hs
  | slotTimeout r =>
    simp only [step] at hs
    split at hs
    · cases hs
      exact h.release hl hu r
    · cases hs
  | delayTimer =>
    obtain ⟨ht, rfl⟩ := of_enabled hs
    refine (h.withFlags false _).processNextInQueue rfl ?_ hu
    intro hd
    rw [(hl hd).1] at ht
    cases ht
  | clear =>
    cases hs
    exact ⟨h.clear, hl.clear⟩
  | close =>
    cases hs
    exact ⟨h.close, idle_close s⟩

/-- In every history whose events all meet the condition, the running count stays within the
concurrency, and it is the number of slots that callers hold once no continuation is pending. No
slot is made for a rejected call, and the slots are granted in the order of the calls, past no call
but an aborted one. -/
theorem slots_accounted (concurrency delay : Nat) (timeout : Option Nat)
    (events : List SemaphoreEvent) (s : Semaphore)
    (hrun : Run (guarded step (·.undisputed ·)) { concurrency, delay, timeout } events s) :
    s.runningCount ≤ s.concurrency ∧
    ((∀ r ∈ s.requests, r.phase ≠ .granted ∧ r.phase ≠ .aborting) →
      s.runningCount = s.requests.countP (fun r => r.phase == .returned && r.holds)) ∧
    (∀ r ∈ s.requests, r.phase = .aborting ∨ r.phase = .rejected → r.slot = none) ∧
    s.served.Pairwise (· < ·) ∧
    ∀ j ∈ s.served, ∀ i < j, ∀ r, s.requests[i]? = some r →
      i ∈ s.served ∨ r.phase = .aborting ∨ r.phase = .rejected := by
  have hin : s.Accounted ∧ s.Idle := by
    refine guarded_invariant (I := fun s => s.Accounted ∧ s.Idle) ?_ hrun
      ⟨accounted_new concurrency delay timeout, fun _ => ⟨rfl, .inl rfl⟩⟩
    intro b event next hu hn hb
    exact accounted_step hb.1 hb.2 hu hn
  obtain ⟨h, -⟩ := hin
  have hs : ∀ r ∈ s.requests, r.slot.isSome → r.phase = .granted ∨ r.phase = .returned := by
    intro r hr
    obtain ⟨i, hi⟩ := getElem?_of_mem hr
    exact h.slotted i r hi
  refine ⟨h.bounded, ?_, ?_, h.servedSorted, ?_⟩
  · intro ht
    rw [h.running]
    congr 1
    refine countP_congr ?_
    intro r hr
    rw [Bool.and_eq_true, beq_iff_eq]
    refine ⟨fun hh => ⟨?_, hh⟩, fun hh => hh.2⟩
    have hm : r.slot.isSome := by
      rw [beq_iff_eq.mp hh]
      rfl
    exact (hs r hr hm).resolve_left (ht r hr).1
  · intro r hr hp
    cases hl : r.slot with
    | none => rfl
    | some slot =>
      have hg := hs r hr (by rw [hl]; rfl)
      rcases hp with hp | hp <;> rw [hp] at hg <;> rcases hg with he | he <;> cases he
  · intro j hj i hij r hr
    cases hp : r.phase with
    | waiting =>
      have hlt := h.servedFirst j hj i (h.waiting i r hr hp)
      omega
    | granted => exact .inl (h.servedAll i r hr (.inl hp))
    | returned => exact .inl (h.servedAll i r hr (.inr hp))
    | aborting => exact .inr (.inl rfl)
    | rejected => exact .inr (.inr rfl)

/-- Two callers wait, the first of them is aborted and goes on, and then the slot is released. -/
theorem slots_accounted_abort : ∃ s : Semaphore,
      exec (guarded step (·.undisputed ·)) {}
          [.obtainSlot false, .settle 0, .obtainSlot false, .obtainSlot false, .abort 1, .settle 1,
            .release 0, .settle 2] = some s ∧ s.served = [0, 2] ∧
      s.runningCount = s.requests.countP (fun r => r.phase == .returned && r.holds) := by
  refine exec_and_of_run (P := fun s => s.served = [0, 2] ∧
    ∀ r ∈ s.requests, r.phase ≠ .granted ∧ r.phase ≠ .aborting) ⟨_, rfl, by decide⟩ ?_
  rintro s hu ⟨hsr, hs⟩
  exact ⟨hsr, (slots_accounted 1 0 none _ s hu).2.1 hs⟩

/-- The slot is released between the abort of the waiting caller and its continuation. It is
granted to that caller, which is rejected, and nobody can release it. -/
theorem slots_leaked : (exec step {}
        [.obtainSlot false, .settle 0, .obtainSlot false, .abort 1, .release 0, .settle 1]).map
      (fun s => (s.runningCount, s.requests)) =
    some (1, [{ phase := .returned, slot := some { released := true } },
      { phase := .rejected, slot := some { released := false } }]) := by
  decide

end Semaphore

end MatterJs.Util
