import MatterJs.Util.Scheduler
import Mathlib.Algebra.Order.Ring.Int

/-!
# Every worker is run once

While the loop waits for a slot, the worker it is going to run has to stay the first one: what it
takes from the queue afterwards is whatever is the first by then.
-/
namespace MatterJs.Util.Scheduler

open TransitionSystem Heap IndexedList List Function Option Int

variable {T : Type} {s t : Scheduler T} {r : T}

/-! ### Keys -/

section Keys

variable {key key' : T → Int} {bf : List T}

theorem ordered_congr (h : Ordered key bf) (he : ∀ x ∈ bf, key' x = key x) : Ordered key' bf := by
  intro i hi a b ha hb
  rw [he a (mem_of_getElem? ha), he b (mem_of_getElem? hb)]
  exact h i hi a b ha hb

/-- The key of one item is changed. -/
theorem orderedBut_congr (h : Ordered key bf) (hnd : bf.Nodup) {index : Nat}
    (hw : bf[index]? = some r) (heq : ∀ x, x ≠ r → key' x = key x) :
    OrderedBut key' bf index := by
  have hbut := h.orderedBut index
  have hne : ∀ {i : Nat} {x : T}, i ≠ index → bf[i]? = some x → x ≠ r := by
    rintro i x hi hx rfl
    exact hi (index_unique hnd hx hw)
  constructor
  · intro i hi hh hp a b ha hb
    rw [heq a (hne hp ha), heq b (hne hh hb)]
    exact hbut.off i hi hh hp a b ha hb
  · intro hrt c hc hp a b ha hb
    have hltp := parentOf_lt hrt
    have hltc := parentOf_lt hc
    rw [heq a (hne (by omega) ha), heq b (hne (by omega) hb)]
    exact hbut.across hrt c hc hp a b ha hb

theorem comparatorFor_nonpos (m : T → Int) (a b : T) : comparatorFor m a b ≤ 0 ↔ m a ≤ m b := by
  unfold comparatorFor
  omega

theorem first_of_mem {q : Heap T} (hm : r ∈ q.buffer) : ∃ f, q.first = some f := by
  refine ⟨_, getElem?_eq_getElem ?_⟩
  exact length_pos_of_mem hm

theorem exists_bound (m : T → Int) (l : List T) : ∃ bound, ∀ x ∈ l, m x ≤ bound := by
  induction l with
  | nil => exact ⟨0, by simp⟩
  | cons a l ih =>
    obtain ⟨bound, hb⟩ := ih
    refine ⟨max (m a) bound, ?_⟩
    intro x hx
    rcases mem_cons.mp hx with rfl | hx
    · exact le_max_left _ _
    · exact le_trans (hb x hx) (le_max_right _ _)

end Keys

variable [DecidableEq T]

/-! ### The loop -/

/-- What the loop has seen is still so. -/
def LoopSound (timeOf : T → Int) (clock : Int) (queue : Heap T) : Loop T → Prop
  | .scan n => n ≤ clock
  | .obtainSlot n first => n ≤ clock ∧ queue.first = some first ∧ timeOf first ≤ n
  | .asleep first wakeAt => queue.first = first ∧ (first ≠ none → wakeAt ≠ none)
  | .woken => True

/-- The queue changes: the loop is told where the first worker is another one, unless it waits
for a slot. -/
theorem LoopSound.notify {m : T → Int} {c : Int} {q q' : Heap T} {l : Loop T}
    (h : LoopSound m c q l) {e : List (Option T)} (ha : Announced q q' e)
    (hh : ∀ n first, l = .obtainSlot n first → q'.first = some first) :
    LoopSound m c q' (notify l e) := by
  cases l with
  | scan n => exact h
  | obtainSlot n first => exact ⟨h.1, hh n first rfl, h.2.2⟩
  | woken => trivial
  | asleep first w =>
    unfold Scheduler.notify
    simp only
    split_ifs with ho
    · trivial
    · refine ⟨?_, h.2⟩
      rcases ha with hm | hs
      · by_contra hn
        exact ho (any_eq_true.mpr ⟨_, hm, by simpa using hn⟩)
      · exact hs.trans h.1

theorem notify_nil (lo : Loop T) : notify lo [] = lo := by
  cases lo <;> rfl

/-! ### The invariant -/

/-- The additions of a worker are its starts, its removals, and its place in the queue. -/
def Counted (s : Scheduler T) : Prop :=
  ∀ worker, s.added.count worker =
    s.started.countP (·.worker == worker) + s.removed.count worker + s.queue.buffer.count worker

structure Sound (s : Scheduler T) : Prop where
  indexed : s.queue.Indexed
  ordered : Ordered s.timeOf s.queue.buffer
  counted : s.Counted
  onTime : ∀ start ∈ s.started, start.timeOf ≤ start.clock
  loop : LoopSound s.timeOf s.clock s.queue s.loop

/-- The same, with the time of one worker out of order. -/
structure SoundBut (worker : T) (s : Scheduler T) : Prop where
  indexed : s.queue.Indexed
  ordered : worker ∉ s.queue.buffer → Ordered s.timeOf s.queue.buffer
  orderedBut : ∀ index, s.queue.buffer[index]? = some worker →
    OrderedBut s.timeOf s.queue.buffer index
  rootLeast : ∀ root, s.queue.first = some root → root ≠ worker → ∀ x ∈ s.queue.buffer,
    x ≠ worker → s.timeOf root ≤ s.timeOf x
  counted : s.Counted
  onTime : ∀ start ∈ s.started, start.timeOf ≤ start.clock
  loop : LoopSound s.timeOf s.clock s.queue s.loop

theorem Sound.setTime (h : s.Sound) (r : T) (time : Int)
    (hh : ∀ n first, s.loop = .obtainSlot n first → r ≠ first) :
    SoundBut r (s.setTime r time) := by
  have ho : ∀ x, x ≠ r → update s.timeOf r time x = s.timeOf x :=
    fun x hx => update_of_ne hx _ _
  refine ⟨h.indexed, ?_, ?_, ?_, h.counted, h.onTime, ?_⟩
  · intro hm
    refine ordered_congr h.ordered ?_
    intro x hx
    refine ho x ?_
    rintro rfl
    exact hm hx
  · intro index hi
    exact orderedBut_congr h.ordered h.indexed.nodup hi ho
  · intro root ht he x hx hn
    simp only [Scheduler.setTime, ho root he, ho x hn]
    exact h.ordered.root_le ht hx
  · have hl := h.loop
    simp only [Scheduler.setTime]
    cases hs : s.loop with
    | scan n =>
      rw [hs] at hl
      exact hl
    | obtainSlot n first =>
      rw [hs] at hl
      refine ⟨hl.1, hl.2.1, ?_⟩
      rw [ho first (Ne.symm (hh n first hs))]
      exact hl.2.2
    | asleep first w =>
      rw [hs] at hl
      exact hl
    | woken => trivial

theorem Sound.soundBut (h : s.Sound) (r : T) : SoundBut r s :=
  ⟨h.indexed, fun _ => h.ordered, fun index _ => h.ordered.orderedBut index,
    fun _ ht _ _ hx _ => h.ordered.root_le ht hx, h.counted, h.onTime, h.loop⟩

/-! ### Additions and removals -/

theorem Sound.add (h : s.Sound) (r : T) (hh : ∀ n first, s.loop = .obtainSlot n first →
      r ∈ s.queue.buffer ∨ s.timeOf first ≤ s.timeOf r) : (s.add r).Sound := by
  unfold Scheduler.add
  by_cases hm : r ∈ s.queue.buffer
  · rw [add_of_mem h.indexed hm]
    simp only [if_pos hm, notify_nil]
    exact h
  · obtain ⟨hi, hp, ha⟩ := add_of_notMem (comparatorFor s.timeOf)
      h.indexed hm
    have ho := add_ordered (comparatorFor_nonpos s.timeOf) h.ordered r
    refine ⟨hi, ho, ?_, h.onTime, h.loop.notify ha ?_⟩
    · intro other
      have hc := h.counted other
      simp only [if_neg hm, count_append, hp.count_eq, count_cons, count_nil]
      omega
    · intro n first hl
      have hs := h.loop
      rw [hl] at hs
      exact add_first (comparatorFor_nonpos s.timeOf) hs.2.1
        ((hh n first hl).resolve_left hm)

theorem SoundBut.delete (h : SoundBut r s)
    (hh : ∀ n first, s.loop = .obtainSlot n first → r ≠ first) : (s.delete r).Sound := by
  unfold Scheduler.delete Heap.delete
  by_cases hm : r ∈ s.queue.buffer
  · obtain ⟨index, hp⟩ := h.indexed.index_of_mem hm
    have hn := (h.indexed.places r index).mp hp
    simp only [hp, if_pos hm]
    obtain ⟨hd, hpr, ha⟩ := deleteAt_spec (comparatorFor s.timeOf)
      h.indexed hn
    have hor := deleteAt_ordered (comparatorFor_nonpos s.timeOf) (h.orderedBut index hn) hn
    refine ⟨hd, hor, ?_, h.onTime, h.loop.notify ha ?_⟩
    · intro other
      have hc := h.counted other
      rw [← hpr.count_eq, count_cons] at hc
      simp only [count_append, count_singleton]
      omega
    · intro n first hl
      have hs := h.loop
      rw [hl] at hs
      have he := hh n first hl
      have hi0 : index ≠ 0 := by
        rintro rfl
        exact he (mem_unique hn hs.2.1)
      refine deleteAt_first (comparatorFor_nonpos s.timeOf) hi0 hn hs.2.1 ?_
      intro i hi other ho
      refine h.rootLeast first hs.2.1 (Ne.symm he) other (mem_of_getElem? ho) ?_
      rintro rfl
      exact hi (index_unique h.indexed.nodup ho hn)
  · simp only [h.indexed.notMem_iff.mpr hm, if_neg hm, notify_nil]
    exact ⟨h.indexed, h.ordered hm, h.counted, h.onTime, h.loop⟩

variable {n : Int} {f : T}

/-! ### Starts -/

theorem Sound.start (h : s.Sound) (hf : s.queue.first = some r) (hn : n ≤ s.clock)
    (ht : s.timeOf r ≤ n) :
    (s.start n r).Sound ∧ (r :: (s.start n r).queue.buffer).Perm s.queue.buffer := by
  obtain ⟨hi, hp, -⟩ := deleteAt_spec (comparatorFor s.timeOf) h.indexed hf
  have ho := deleteAt_ordered (comparatorFor_nonpos s.timeOf) (h.ordered.orderedBut 0) hf
  refine ⟨⟨hi, ho, ?_, ?_, hn⟩, hp⟩
  · intro other
    have hc := h.counted other
    rw [← hp.count_eq, count_cons] at hc
    simp only [Scheduler.start, countP_append, countP_singleton, shift]
    omega
  · intro start hs
    rcases mem_concat_cases hs with hl | rfl
    · exact h.onTime start hl
    · exact le_trans ht hn

theorem Sound.withLoop (h : s.Sound) {l : Loop T}
    (hl : LoopSound s.timeOf s.clock s.queue l) : Sound { s with loop := l } :=
  ⟨h.indexed, h.ordered, h.counted, h.onTime, hl⟩

theorem Sound.scan (h : s.Sound) (hn : n ≤ s.clock) : (s.scan n).Sound := by
  unfold Scheduler.scan
  split
  · rename_i f hf
    split_ifs with ht hs
    · exact h.withLoop ⟨hn, hf, ht⟩
    · exact (h.start hf hn ht).1
    · exact h.withLoop ⟨hf, fun _ hnn => by cases hnn⟩
  · rename_i hf
    exact h.withLoop ⟨hf, fun hm => absurd rfl hm⟩

theorem Sound.tick (h : s.Sound) (d : Nat) : Sound { s with clock := s.clock + d } := by
  refine ⟨h.indexed, h.ordered, h.counted, h.onTime, ?_⟩
  have hl := h.loop
  cases hs : s.loop with
  | scan n =>
    rw [hs] at hl
    exact le_trans hl (Int.le_add_of_nonneg_right (natCast_nonneg _))
  | obtainSlot n f =>
    rw [hs] at hl
    exact ⟨le_trans hl.1 (Int.le_add_of_nonneg_right (natCast_nonneg _)), hl.2⟩
  | asleep f w =>
    rw [hs] at hl
    exact hl
  | woken => trivial

/-! ### Whole histories -/

/-- The condition on an event: while the loop waits for a slot, the worker it looked at is neither
deleted nor rescheduled, and no worker is put before it. -/
def steady (s : Scheduler T) : SchedulerEvent T → Bool
  | .add worker =>
    match s.loop with
    | .obtainSlot _ first => worker ∈ s.queue.buffer || s.timeOf first ≤ s.timeOf worker
    | _ => true
  | .delete worker =>
    match s.loop with
    | .obtainSlot _ first => worker ≠ first
    | _ => true
  | .reschedule worker time =>
    match s.loop with
    | .obtainSlot _ first => worker ≠ first && s.timeOf first ≤ time
    | _ => true
  | _ => true

theorem loop_of_delete_obtainSlot (h : (s.delete r).loop = .obtainSlot n f) :
    s.loop = .obtainSlot n f := by
  unfold Scheduler.delete at h
  cases hs : s.loop with
  | scan now' => rw [hs] at h; cases h
  | obtainSlot now' f' => rw [hs] at h; exact h
  | asleep f' w =>
    rw [hs] at h
    simp only [notify] at h
    split_ifs at h
  | woken => rw [hs] at h; cases h

theorem sound_step (h : s.Sound) {e : SchedulerEvent T} (hst : s.steady e)
    (he : s.step e = some t) : t.Sound := by
  cases e with
  | add w =>
    cases he
    refine h.add w ?_
    intro n f hl
    simpa [steady, hl] using hst
  | delete w =>
    cases he
    refine (h.soundBut w).delete ?_
    intro n f hl
    simpa [steady, hl] using hst
  | reschedule w time =>
    cases he
    have hh : ∀ n f, s.loop = .obtainSlot n f → w ≠ f ∧ s.timeOf f ≤ time := by
      intro n f hl
      simpa [steady, hl] using hst
    have hd := (h.setTime w time (fun n f hl => (hh n f hl).1)).delete
      (fun n f hl => (hh n f hl).1)
    refine hd.add w ?_
    intro n f hl
    obtain ⟨hn, ht⟩ := hh n f (loop_of_delete_obtainSlot (s := s.setTime w time) hl)
    right
    simp only [Scheduler.delete, Scheduler.setTime]
    rw [update_of_ne (Ne.symm hn), update_self]
    exact ht
  | setTime w time =>
    simp only [step] at he
    split_ifs at he with hm
    cases he
    have hh : ∀ n f, s.loop = .obtainSlot n f → w ≠ f := by
      rintro n f hl rfl
      have hs := h.loop
      rw [hl] at hs
      exact hm (mem_of_getElem? hs.2.1)
    have hb := h.setTime w time hh
    exact ⟨hb.indexed, hb.ordered hm, hb.counted, hb.onTime, hb.loop⟩
  | tick d =>
    cases he
    exact h.tick d
  | timer =>
    simp only [step] at he
    split at he
    · split_ifs at he
      cases he
      exact h.withLoop trivial
    · cases he
  | resume =>
    simp only [step] at he
    split at he
    · cases he
      exact h.withLoop (le_refl _)
    · cases he
  | scan =>
    have hs := h.loop
    simp only [step] at he
    split at he
    · rename_i n hl
      rw [hl] at hs
      cases he
      exact h.scan hs
    · cases he
  | slot =>
    have hs := h.loop
    simp only [step] at he
    split at he
    · rename_i n f hl
      rw [hl] at hs
      cases he
      exact (h.start hs.2.1 hs.1 hs.2.2).1
    · cases he

/-! ### Progress -/

/-- The clock, the semaphore and the loop itself. -/
def ofLoop : SchedulerEvent T → Bool
  | .tick _ | .timer | .resume | .scan | .slot => true
  | _ => false

def starts (s : Scheduler T) (worker : T) : Nat := s.started.countP (·.worker == worker)

/-- Time passes, slots become available, and the worker is run. -/
def CanStart (s : Scheduler T) (worker : T) : Prop :=
  ∃ events t, (∀ event ∈ events, ofLoop event) ∧ exec step s events = some t ∧
    t.starts worker = s.starts worker + 1

theorem CanStart.of_exec {es : List (SchedulerEvent T)}
    (hl : ∀ e ∈ es, ofLoop e) (hx : exec step s es = some t)
    (hs : t.starts r = s.starts r) (h : t.CanStart r) : s.CanStart r := by
  obtain ⟨e', u, hl', he', hs'⟩ := h
  refine ⟨es ++ e', u, ?_, ?_, hs'.trans (by rw [hs])⟩
  · intro e he
    exact (mem_append.mp he).elim (hl e) (hl' e)
  · rw [exec_append, hx]
    exact he'

theorem starts_start (s : Scheduler T) (n : Int) (f r : T) :
    (s.start n f).starts r = s.starts r + if f = r then 1 else 0 := by
  simp [starts, Scheduler.start]

/-- A worker that is due and the first one is started by the loop. -/
theorem exec_start (hl : s.loop = .scan n) (hf : s.queue.first = some f) (ht : s.timeOf f ≤ n) :
    ∃ e, (∀ v ∈ e, ofLoop (T := T) v) ∧ exec step s e = some (s.start n f) := by
  by_cases hs : s.semaphore
  · refine ⟨[.scan, .slot], by simp [ofLoop], ?_⟩
    simp only [exec, step, hl, Scheduler.scan, hf, if_pos ht, if_pos hs, bind_some]
    rfl
  · refine ⟨[.scan], by simp [ofLoop], ?_⟩
    simp [exec, step, hl, Scheduler.scan, hf, if_pos ht, if_neg hs]

/-- The loop starts the first worker and goes on with the others. -/
theorem canStart_of_first (h : s.Sound) (hl : s.loop = .scan n)
    (hf : s.queue.first = some f) (ht : s.timeOf f ≤ n) (hm : r ∈ s.queue.buffer)
    (hrs : (s.start n f).Sound → (f :: (s.start n f).queue.buffer).Perm s.queue.buffer →
      r ∈ (s.start n f).queue.buffer → (s.start n f).CanStart r) : s.CanStart r := by
  have hn := h.loop
  rw [hl] at hn
  obtain ⟨e, he, hx⟩ := exec_start hl hf ht
  obtain ⟨hsn, hp⟩ := h.start hf hn ht
  have hs := starts_start s n f r
  by_cases hq : f = r
  · rw [if_pos hq] at hs
    exact ⟨e, _, he, hx, hs⟩
  · rw [if_neg hq] at hs
    have hm' := (mem_cons.mp (hp.mem_iff.mpr hm)).resolve_left (Ne.symm hq)
    exact .of_exec he hx hs (hrs hsn hp hm')

/-- Everything in the queue is due. -/
theorem canStart_of_due (l : Nat) (h : s.Sound) (hl : s.queue.buffer.length = l)
    (hlp : s.loop = .scan n) (hm : r ∈ s.queue.buffer)
    (hd : ∀ x ∈ s.queue.buffer, s.timeOf x ≤ n) : s.CanStart r := by
  induction l generalizing s with
  | zero =>
    rw [length_eq_zero_iff.mp hl] at hm
    cases hm
  | succ l ih =>
    obtain ⟨f, hf⟩ := first_of_mem hm
    refine canStart_of_first h hlp hf (hd f (mem_of_getElem? hf)) hm ?_
    intro hs hp hm'
    refine ih hs ?_ rfl hm' ?_
    · have he := hp.length_eq
      rw [length_cons, hl] at he
      omega
    · intro x hx
      exact hd x (hp.subset (mem_cons_of_mem _ hx))

/-- The loop wakes at the time of the first worker. -/
theorem canStart_of_asleep (h : s.Sound) {f : Option T} {w : Option Int}
    (hl : s.loop = .asleep f w) (hm : r ∈ s.queue.buffer) : s.CanStart r := by
  have hs := h.loop
  rw [hl] at hs
  obtain ⟨x, hx⟩ := first_of_mem hm
  obtain ⟨time, ht⟩ : ∃ time, w = some time := by
    refine ne_none_iff_exists'.mp (hs.2 ?_)
    rw [← hs.1, hx]
    exact some_ne_none x
  obtain ⟨bound, hb⟩ := exists_bound s.timeOf s.queue.buffer
  obtain ⟨duration, hd⟩ : ∃ duration : Nat,
      time ≤ s.clock + duration ∧ bound ≤ s.clock + duration :=
    ⟨(max time bound - s.clock).toNat, by omega, by omega⟩
  have he : exec step s [.tick duration, .timer, .resume] =
      some { s with
        clock := s.clock + duration
        loop := .scan (s.clock + duration) } := by
    simp [exec, step, hl, ht, if_pos hd.1]
  refine .of_exec (by simp [ofLoop]) he rfl ?_
  have hn : Sound { s with
      clock := s.clock + duration
      loop := .scan (s.clock + duration) } := (h.tick duration).withLoop (le_refl _)
  refine canStart_of_due _ hn rfl rfl hm ?_
  intro y hy
  exact le_trans (hb y hy) hd.2

theorem canStart_of_scan (l : Nat) (h : s.Sound) (hl : s.queue.buffer.length = l)
    (hp : s.loop = .scan n) (hm : r ∈ s.queue.buffer) : s.CanStart r := by
  induction l generalizing s with
  | zero =>
    rw [length_eq_zero_iff.mp hl] at hm
    cases hm
  | succ l ih =>
    obtain ⟨f, hf⟩ := first_of_mem hm
    by_cases ht : s.timeOf f ≤ n
    · refine canStart_of_first h hp hf ht hm ?_
      intro hs hpr hm'
      refine ih hs ?_ rfl hm'
      have hle := hpr.length_eq
      rw [length_cons, hl] at hle
      omega
    · -- The pass is over.
      have hn := h.loop
      rw [hp] at hn
      have hc : s.scan n = { s with
          loop := .asleep (some f) (some (s.clock + (s.timeOf f - n))) } := by
        simp [Scheduler.scan, hf, if_neg ht]
      have he : exec step s [.scan] = some (s.scan n) := by
        simp [exec, step, hp]
      have hs := h.scan hn
      rw [hc] at he hs
      exact .of_exec (by simp [ofLoop]) he rfl (canStart_of_asleep hs rfl hm)

theorem Sound.canStart (h : s.Sound) (hm : r ∈ s.queue.buffer) : s.CanStart r := by
  have hn := h.loop
  cases hl : s.loop with
  | scan n => exact canStart_of_scan _ h rfl hl hm
  | asleep f w => exact canStart_of_asleep h hl hm
  | woken =>
    have he : exec step s [.resume] = some { s with loop := .scan s.clock } := by
      simp [exec, step, hl]
    exact .of_exec (by simp [ofLoop]) he rfl
      (canStart_of_scan _ (h.withLoop (le_refl _)) rfl rfl hm)
  | obtainSlot n f =>
    rw [hl] at hn
    have he : exec step s [.slot] = some (s.start n f) := by
      simp only [exec, step, hl, bind_some]
    obtain ⟨ht, hp⟩ := h.start hn.2.1 hn.1 hn.2.2
    have hs := starts_start s n f r
    by_cases hq : f = r
    · rw [if_pos hq] at hs
      exact ⟨[.slot], _, by simp [ofLoop], he, hs⟩
    · rw [if_neg hq] at hs
      have hm' := (mem_cons.mp (hp.mem_iff.mpr hm)).resolve_left (Ne.symm hq)
      exact .of_exec (by simp [ofLoop]) he hs (canStart_of_scan _ ht rfl rfl hm')

/-- In every history whose events all meet the condition, each addition of a worker to the queue is
answered by one start or one removal or is still in the queue, no worker is started before its
time, and the loop gets to every worker in the queue. -/
theorem workers_run_once (semaphore : Bool) (timeOf : T → Int) (clock : Int)
    (events : List (SchedulerEvent T)) (s : Scheduler T)
    (hrun : Run (guarded step (·.steady ·))
      { semaphore, timeOf, clock } events s) : (∀ worker, s.added.count worker =
        s.starts worker + s.removed.count worker + s.queue.buffer.count worker) ∧
      (∀ start ∈ s.started, start.timeOf ≤ start.clock) ∧
      ∀ worker ∈ s.queue.buffer, s.CanStart worker := by
  have hn : Sound ({ semaphore, timeOf, clock } : Scheduler T) := by
    refine ⟨⟨nodup_nil, by simp⟩, ?_, ?_, by simp, ⟨rfl, fun hsm => absurd rfl hsm⟩⟩
    · intro i _ a b ha _
      cases ha
    · intro other
      rfl
  have hs : s.Sound := by
    refine guarded_invariant (I := Sound) ?_ hrun hn
    intro e event next ht hx hb
    exact sound_step hb ht hx
  exact ⟨hs.counted, hs.onTime, fun _ hm => hs.canStart hm⟩

/-- While the loop waits for a slot for one worker, later ones are added and one of them is
deleted. -/
theorem workers_run_once_waiting : ∃ s : Scheduler Nat,
      exec (guarded step (·.steady ·))
          { semaphore := true, timeOf := fun worker : Nat => 10 * worker }
          [.add 1, .tick 15, .resume, .scan, .add 2, .add 3, .delete 3, .slot, .scan] = some s ∧
      s.started = [{ worker := 1, timeOf := 10, clock := 15 }] ∧ s.CanStart 2 := by
  refine exec_and_of_run (P := fun s => s.started = [{ worker := 1, timeOf := 10, clock := 15 }] ∧
    2 ∈ s.queue.buffer) ⟨_, rfl, by decide⟩ ?_
  rintro s hu ⟨hs, hm⟩
  exact ⟨hs, (workers_run_once _ _ _ _ s hu).2.2 2 hm⟩

/-- While the loop waits for a slot for the worker 2, the worker 1 with an earlier time is added. It
is taken from the queue and never run, and the worker 2 is run twice. -/
theorem worker_dropped :
    (exec step ({ semaphore := true, timeOf := fun worker : Nat => 10 * worker } : Scheduler Nat)
        [.add 2, .tick 25, .resume, .scan, .add 1, .slot, .scan, .slot]).map
      (fun s => (s.added, s.started.map Start.worker, s.removed, s.queue.buffer)) =
    some ([2, 1], [2, 2], [], []) := by
  decide

end MatterJs.Util.Scheduler
